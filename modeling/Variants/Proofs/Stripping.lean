import Variants.Proofs.Annotation
import Variants.Proofs.PassThrough

/-!
# Stripped keys

Expressions are cut out of a key at positions that never reach beyond it.  Before
the first cut the key stays as it was written, and behind it only blanks are
accepted.  So what is left is a beginning of the key with blanks after it, and no
left delimiter can be put together by the cuts: it would stand before the first
one, where it had been found.
-/

namespace Variants

/-! ## Cutting by positions -/

namespace Brackets

variable {brackets : Brackets} {text : List Char}

theorem scan_eq_found {start : Nat} {bracketed : Bracketed}
    (h : brackets.scan start text = .found bracketed) :
    start ≤ bracketed.start ∧ bracketed.stop ≤ text.length ∧
      ∀ index, start ≤ index → index < bracketed.start →
        ¬ Text.OccursAt brackets.left text index := by
  rw [scan_eq] at h
  split at h
  · cases h
  · next skipped hskipped =>
      dsimp only at h
      split at h
      · cases h
      · next length hlength =>
          cases h
          have hopens := Text.indexOf?_drop_eq_some_iff.mp hskipped
          have hcloses := (Text.indexOf?_drop_eq_some_iff.mp hlength).occursAt.length_le
          refine ⟨hopens.start_le, ?_, hopens.first⟩
          have hpos := brackets.same_width ▸ brackets.width_pos
          rw [List.length_drop] at hcloses
          simp only [width, brackets.same_width] at hcloses ⊢
          omega

/--
A search by positions: what is found is cut out of the text, and the search goes
on where the cut was.  Every cut is within the text at hand, and there are
finitely many.
-/
inductive Search (brackets : Brackets) : Nat → List Char → Excision → Prop where
  | absent {start : Nat} {text : List Char} (h : brackets.scan start text = .notFound) :
      Search brackets start text ⟨text, [], none, true⟩
  | unclosed {start : Nat} {text : List Char} (h : brackets.scan start text = .unterminated) :
      Search brackets start text ⟨text, [], none, false⟩
  | cut {start : Nat} {text : List Char} {bracketed : Bracketed} {later : Excision}
      (h : brackets.scan start text = .found bracketed) (hstart : start ≤ bracketed.start)
      (hstop : bracketed.stop ≤ text.length)
      (hlater : Search brackets bracketed.start
        (text.take bracketed.start ++ text.drop bracketed.stop) later) :
      Search brackets start text
        { later with
          expressions := bracketed.expression :: later.expressions
          first := some bracketed.start }

theorem scan_append (brackets : Brackets) (before text : List Char) :
    brackets.scan before.length (before ++ text) =
      match brackets.scan 0 text with
      | .notFound => .notFound
      | .unterminated => .unterminated
      | .found bracketed =>
          .found
            { start := before.length + bracketed.start
              stop := before.length + bracketed.stop
              expression := bracketed.expression
              start_lt_stop := Nat.add_lt_add_left bracketed.start_lt_stop _ } := by
  have hdrop : ∀ n, (before ++ text).drop (before.length + n) = text.drop n := by
    simp [List.drop_append]
  rw [scan_eq, scan_eq]
  rw [show before.length = before.length + 0 from rfl, hdrop 0]
  simp only [Nat.add_zero, Nat.zero_add, Nat.add_assoc, hdrop, List.drop_zero]
  cases Text.indexOf? brackets.left text with
  | none => rfl
  | some skipped =>
      dsimp only
      cases Text.indexOf? brackets.right (text.drop (skipped + brackets.width)) <;> rfl

/-- The expressions are those that a search by positions takes out. -/
theorem search_append_excise (brackets : Brackets) (before text : List Char) :
    Search brackets before.length (before ++ text)
      { brackets.excise text with
        text := before ++ (brackets.excise text).text
        first := (brackets.excise text).first.map (before.length + ·) } := by
  induction hlength : text.length using Nat.strongRecOn generalizing before text with
  | ind bound ih =>
      have hscan := scan_append brackets before text
      rw [excise_eq]
      cases hfound : brackets.scan 0 text with
      | notFound =>
          rw [hfound] at hscan
          exact .absent hscan
      | unterminated =>
          rw [hfound] at hscan
          exact .unclosed hscan
      | found bracketed =>
          rw [hfound] at hscan
          obtain ⟨-, hstop, -⟩ := scan_eq_found hfound
          have hlt := bracketed.start_lt_stop
          have hrest : (text.drop bracketed.stop).length < bound := by
            rw [List.length_drop]
            omega
          have htake : (before ++ text).take (before.length + bracketed.start) =
              before ++ text.take bracketed.start := by simp [List.take_append]
          have hdrop : (before ++ text).drop (before.length + bracketed.stop) =
              text.drop bracketed.stop := by simp [List.drop_append]
          have hcut : (before ++ text.take bracketed.start).length =
              before.length + bracketed.start := by
            rw [List.length_append, List.length_take]
            omega
          have hlater := ih _ hrest (before ++ text.take bracketed.start)
            (text.drop bracketed.stop) rfl
          rw [hcut, ← htake, ← hdrop] at hlater
          have hwithin : before.length + bracketed.stop ≤ (before ++ text).length := by
            rw [List.length_append]
            exact Nat.add_le_add_left hstop _
          simpa [htake, hdrop] using Search.cut hscan (Nat.le_add_right _ _) hwithin hlater

theorem search_excise (brackets : Brackets) (text : List Char) :
    Search brackets 0 text (brackets.excise text) := by
  simpa using search_append_excise brackets [] text

/-! ## What the first cut leaves alone -/

theorem Search.take_eq {start : Nat} {excision : Excision}
    (h : Search brackets start text excision) (hstart : start ≤ text.length) :
    start ≤ excision.text.length ∧ excision.text.take start = text.take start := by
  induction h with
  | absent => exact ⟨hstart, rfl⟩
  | unclosed => exact ⟨hstart, rfl⟩
  | @cut start text bracketed later _ hle hstop _ ih =>
      have hwithin : bracketed.start ≤ text.length :=
        Nat.le_trans (Nat.le_of_lt bracketed.start_lt_stop) hstop
      have hcut : bracketed.start ≤
          (text.take bracketed.start ++ text.drop bracketed.stop).length := by
        rw [List.length_append, List.length_take]
        omega
      obtain ⟨hlength, htake⟩ := ih hcut
      refine ⟨Nat.le_trans hle hlength, ?_⟩
      have hshort := congrArg (List.take start) htake
      simpa [List.take_take, List.take_append, hle, hwithin] using hshort

theorem not_infix_take {start : Nat}
    (h : ∀ index < start, ¬ Text.OccursAt brackets.left text index) :
    ¬ brackets.left <:+: text.take start := by
  rw [← Text.exists_occursAt_iff]
  rintro ⟨index, hoccurs⟩
  have hlength := hoccurs.length_le
  have hpos := brackets.width_pos
  rw [List.length_drop, List.length_take] at hlength
  rw [Text.OccursAt, List.drop_take] at hoccurs
  exact h index (by omega) (hoccurs.trans (List.take_prefix _ _))

theorem excise_of_first_eq_none (h : (brackets.excise text).first = none) :
    (brackets.excise text).text = text ∧
      ((brackets.excise text).closed = true → ¬ brackets.left <:+: text) := by
  have hsearch := brackets.search_excise text
  generalize brackets.excise text = excision at h hsearch
  cases hsearch with
  | absent hscan =>
      refine ⟨rfl, fun _ hpart => ?_⟩
      obtain ⟨index, hoccurs⟩ := Text.exists_occursAt_iff.mpr hpart
      exact brackets.scan_eq_notFound_iff.mp hscan index (Nat.zero_le _) hoccurs
  | unclosed => exact ⟨rfl, fun hclosed => by cases hclosed⟩
  | cut => cases h

theorem excise_of_first_eq_some {start : Nat} (h : (brackets.excise text).first = some start) :
    start ≤ (brackets.excise text).text.length ∧
      (brackets.excise text).text.take start = text.take start ∧
      ¬ brackets.left <:+: text.take start := by
  have hsearch := brackets.search_excise text
  generalize brackets.excise text = excision at h hsearch
  cases hsearch with
  | absent => cases h
  | unclosed => cases h
  | @cut _ _ bracketed later hscan _ hstop hlater =>
      cases h
      have hwithin : bracketed.start ≤ text.length :=
        Nat.le_trans (Nat.le_of_lt bracketed.start_lt_stop) hstop
      obtain ⟨hlength, htake⟩ := hlater.take_eq (by
        rw [List.length_append, List.length_take]
        omega)
      obtain ⟨-, -, hfirst⟩ := brackets.scan_eq_found hscan
      refine ⟨hlength, ?_, not_infix_take fun index => hfirst index (Nat.zero_le _)⟩
      simpa [List.take_append, hwithin] using htake

end Brackets

/-! ## Conditions without repetitions -/

namespace Condition

theorem same_iff {a b : Condition} :
    a.same b = true ↔ a.dimension = b.dimension ∧ a.register = b.register ∧
      ∀ domain, a.domains.get? domain = b.domains.get? domain := by
  simp only [same, Bool.and_eq_true, beq_iff_eq, OrderedMap.sameEntries_iff, and_assoc]

theorem same_comm (a b : Condition) : a.same b = b.same a := by
  rw [Bool.eq_iff_iff, same_iff, same_iff, eq_comm, @eq_comm _ a.register]
  simp only [@eq_comm _ (a.domains.get? _)]

def Distinct (conditions : List Condition) : Prop :=
  conditions.Pairwise fun a b => a.same b = false

theorem Distinct.merge {conditions : List Condition} (h : Distinct conditions)
    (more : List Condition) : Distinct (merge conditions more) := by
  induction more generalizing conditions with
  | nil => exact h
  | cons c more ih =>
      refine ih ?_
      dsimp only
      split
      · exact h
      · next hnone =>
          rw [Bool.not_eq_true, List.any_eq_false] at hnone
          refine List.pairwise_append.mpr ⟨h, List.pairwise_singleton _ _, fun a ha b hb => ?_⟩
          rw [List.mem_singleton.mp hb, same_comm]
          exact Bool.eq_false_iff.mpr (hnone a ha)

theorem Distinct.nodup {conditions : List Condition} (h : Distinct conditions) :
    conditions.Nodup := by
  refine h.imp ?_
  rintro a _ hsame rfl
  have hself : a.same a = true := same_iff.mpr ⟨rfl, rfl, fun _ => rfl⟩
  rw [hself] at hsame
  cases hsame

end Condition

/-! ## One dimension after another -/

namespace KeyReading

/--
Up to the end of its name a key stands as it was written, no left delimiter of
the dimensions taken out so far is in the name, and no condition is repeated.
-/
structure Stripped (key : String) (done : List Dimension) (reading : KeyReading) : Prop where
  end_le : reading.nameEnd ≤ reading.text.length
  take_eq : reading.text.take reading.nameEnd = key.toList.take reading.nameEnd
  absent : ∀ d ∈ done, ¬ d.brackets.left <:+: reading.text.take reading.nameEnd
  distinct : Condition.Distinct reading.conditions

variable {key : String} {done later : List Dimension} {reading result : KeyReading}

theorem stripped_ofKey (key : String) : Stripped key [] (.ofKey key) where
  end_le := Nat.le_refl _
  take_eq := rfl
  absent := by simp
  distinct := List.Pairwise.nil

theorem distinct_addExpression {d : Dimension} {conditions more : List Condition}
    {expression : List Char} (h : Condition.Distinct conditions)
    (hadd : addExpression key d conditions expression = .ok more) : Condition.Distinct more := by
  unfold addExpression at hadd
  split at hadd
  · cases hadd
    exact h
  · obtain ⟨found, -, heq⟩ := bind_eq_ok_iff.mp hadd
    cases heq
    exact h.merge found

theorem strip_eq_ok {d : Dimension} (h : reading.strip key d = .ok result) :
    ∃ conditions, (d.brackets.excise reading.text).expressions.foldlM (addExpression key d)
        reading.conditions = .ok conditions ∧
      (d.brackets.excise reading.text).closed = true ∧
      result =
        { text := (d.brackets.excise reading.text).text
          nameEnd := ((d.brackets.excise reading.text).first.map
            (min reading.nameEnd)).getD reading.nameEnd
          conditions } := by
  simp only [strip, bind_eq_ok_iff] at h
  obtain ⟨conditions, hfold, h⟩ := h
  split at h
  · next hclosed => exact ⟨conditions, hfold, hclosed, (Except.ok.inj h).symm⟩
  · cases h

theorem Stripped.strip (h : Stripped key done reading) {d : Dimension}
    (hstrip : reading.strip key d = .ok result) : Stripped key (done ++ [d]) result := by
  obtain ⟨conditions, hfold, hclosed, rfl⟩ := strip_eq_ok hstrip
  have hdistinct : Condition.Distinct conditions :=
    foldlM_preserves (P := Condition.Distinct)
      (fun _ _ _ _ hprevious hstep => distinct_addExpression hprevious hstep) h.distinct hfold
  cases hfirst : (d.brackets.excise reading.text).first with
  | none =>
      obtain ⟨htext, habsent⟩ := Brackets.excise_of_first_eq_none hfirst
      refine ⟨?_, ?_, ?_, hdistinct⟩
      · simpa [htext] using h.end_le
      · simpa [htext] using h.take_eq
      · intro other hother hpart
        rw [Option.map_none, Option.getD_none, htext] at hpart
        rcases List.mem_append.mp hother with hother | hother
        · exact h.absent other hother hpart
        · rw [List.mem_singleton.mp hother] at hpart
          exact habsent hclosed (hpart.trans (List.take_prefix _ _).isInfix)
  | some start =>
      obtain ⟨hlength, htake, habsent⟩ := Brackets.excise_of_first_eq_some hfirst
      -- The name ends at the first cut at the latest, and nothing changed before it.
      have hsame : ∀ n ≤ start,
          (d.brackets.excise reading.text).text.take n = reading.text.take n := by
        intro n hn
        have hshort := congrArg (List.take n) htake
        simpa [List.take_take, hn] using hshort
      have hname := hsame (min reading.nameEnd start) (Nat.min_le_right _ _)
      refine ⟨?_, ?_, ?_, hdistinct⟩
      · exact Nat.le_trans (Nat.min_le_right _ _) hlength
      · have hshort := congrArg (List.take (min reading.nameEnd start)) h.take_eq
        rw [List.take_take, List.take_take] at hshort
        simpa [hname] using hshort
      · intro other hother hpart
        rw [Option.map_some, Option.getD_some, hname] at hpart
        rcases List.mem_append.mp hother with hother | hother
        · exact h.absent other hother (hpart.trans
            (List.take_prefix_take_left (Nat.min_le_left _ _)).isInfix)
        · rw [List.mem_singleton.mp hother] at hpart
          exact habsent (hpart.trans (List.take_prefix_take_left (Nat.min_le_right _ _)).isInfix)

theorem Stripped.foldlM (h : Stripped key done reading)
    (hfold : later.foldlM (KeyReading.strip key) reading = .ok result) :
    Stripped key (done ++ later) result := by
  induction later generalizing done reading with
  | nil =>
      cases hfold
      simpa using h
  | cons d later ih =>
      rw [List.foldlM_cons, bind_eq_ok_iff] at hfold
      obtain ⟨next, hnext, hfold⟩ := hfold
      simpa using ih (h.strip hnext) hfold

end KeyReading

theorem exists_stripped_of_parseKey {dimensions : List Dimension} {key name : String}
    {conditions : List Condition} (h : parseKey dimensions key = .ok (name, conditions)) :
    ∃ reading, KeyReading.Stripped key dimensions reading ∧ name = String.ofList reading.text ∧
      conditions = reading.conditions ∧
      ∀ c ∈ reading.text.drop reading.nameEnd, Text.isBlank c = true := by
  simp only [parseKey, bind_eq_ok_iff] at h
  obtain ⟨reading, hfold, h⟩ := h
  have hstripped := (KeyReading.stripped_ofKey key).foldlM hfold
  split at h
  · next hblank =>
      cases h
      exact ⟨reading, hstripped, rfl, rfl, List.all_eq_true.mp hblank⟩
  · cases h

theorem distinct_of_parseKey {dimensions : List Dimension} {key name : String}
    {conditions : List Condition} (h : parseKey dimensions key = .ok (name, conditions)) :
    Condition.Distinct conditions := by
  obtain ⟨reading, hstripped, -, rfl, -⟩ := exists_stripped_of_parseKey h
  exact hstripped.distinct

theorem Text.infix_of_infix_append {pattern text more : List Char} (hne : pattern ≠ [])
    (hmore : ∀ c ∈ pattern, c ∉ more) (h : pattern <:+: text ++ more) : pattern <:+: text := by
  obtain ⟨before, after, heq⟩ := h
  rcases List.append_eq_append_iff.mp heq with ⟨rest, htext, -⟩ | ⟨joined, hjoined, hrest⟩
  · exact ⟨before, rest, htext.symm⟩
  · cases hlast : joined.getLast? with
    | none =>
        rw [List.getLast?_eq_none_iff.mp hlast, List.append_nil] at hjoined
        exact ⟨before, [], by simpa using hjoined⟩
    | some c =>
        have hmem : c ∈ more := hrest ▸ List.mem_append_left _ (List.mem_of_getLast? hlast)
        have hend := congrArg List.getLast? hjoined
        rw [List.getLast?_append, List.getLast?_append, hlast,
          List.getLast?_eq_some_getLast hne] at hend
        have hc : pattern.getLast hne = c := by simpa using hend
        exact absurd hmem (hmore c (hc ▸ List.getLast_mem hne))

/-! ## Reading keys -/

/--
Reading a key is a finite number of cuts, each within the text at hand, and the
end of the name never lies behind what is left.  An accepted key becomes a
beginning of itself with blanks after it, and no condition is stated twice.  No
left delimiter without blanks is in what is left, not even put together by the
cuts, and what is left reads as itself.
-/
theorem parseKey_strips (dimensions : List Dimension) (key : String) :
    (∀ d ∈ dimensions, ∀ text, d.brackets.Search 0 text (d.brackets.excise text)) ∧
    (∀ before after reading, dimensions = before ++ after →
      before.foldlM (KeyReading.strip key) (.ofKey key) = .ok reading →
      reading.nameEnd ≤ reading.text.length) ∧
    ∀ clean conditions, parseKey dimensions key = .ok (clean, conditions) →
      (∃ name blanks, clean.toList = name ++ blanks ∧ name <+: key.toList ∧
        ∀ c ∈ blanks, Text.isBlank c = true) ∧
      Condition.Distinct conditions ∧
      (∀ d ∈ dimensions, (∀ c ∈ d.brackets.left, Text.isBlank c = false) →
        ¬ d.brackets.left <:+: clean.toList) ∧
      ((∀ d ∈ dimensions, ∀ c ∈ d.brackets.left, Text.isBlank c = false) →
        parseKey dimensions clean = .ok (clean, [])) := by
  refine ⟨fun d _ text => d.brackets.search_excise text, ?_, ?_⟩
  · intro before after reading _ hfold
    exact ((KeyReading.stripped_ofKey key).foldlM hfold).end_le
  · intro clean conditions hparse
    obtain ⟨reading, hstripped, rfl, rfl, hblank⟩ := exists_stripped_of_parseKey hparse
    have habsent : ∀ d ∈ dimensions, (∀ c ∈ d.brackets.left, Text.isBlank c = false) →
        ¬ d.brackets.left <:+: reading.text := by
      intro d hd hleft hpart
      rw [← List.take_append_drop reading.nameEnd reading.text] at hpart
      refine hstripped.absent d hd (Text.infix_of_infix_append d.brackets.left_ne_nil ?_ hpart)
      intro c hc hmem
      have hnot := hleft c hc
      rw [hblank c hmem] at hnot
      cases hnot
    refine ⟨⟨reading.text.take reading.nameEnd, reading.text.drop reading.nameEnd, ?_, ?_, hblank⟩,
      hstripped.distinct, ?_, fun hall => ?_⟩
    · simp
    · rw [hstripped.take_eq]
      exact List.take_prefix _ _
    · simpa using habsent
    · refine parseKey_of_undelimited fun d hd => ?_
      simpa using habsent d hd (hall d hd)

open Annotation

theorem parseKey_strips_halfOpenedHost :
    parseKey [stage, zone] "ho]st[ [[dev.d2]] |:z1|[[dev.d2]] " =
      .ok ("ho]st[   ", [⟨"env", ⟨0⟩, .single "dev" ["d2"]⟩, ⟨"zone", ⟨1⟩, .single "z" ["z1"]⟩]) ∧
    (∃ name blanks, "ho]st[   ".toList = name ++ blanks ∧
      name <+: "ho]st[ [[dev.d2]] |:z1|[[dev.d2]] ".toList ∧
      ∀ c ∈ blanks, Text.isBlank c = true) ∧
    parseKey [stage, zone] "ho]st[   " = .ok ("ho]st[   ", []) := by
  have hparse : parseKey [stage, zone] "ho]st[ [[dev.d2]] |:z1|[[dev.d2]] " =
        .ok ("ho]st[   ",
          [⟨"env", ⟨0⟩, .single "dev" ["d2"]⟩, ⟨"zone", ⟨1⟩, .single "z" ["z1"]⟩]) := by
    decide +kernel
  have hleft : ∀ d ∈ [stage, zone], ∀ c ∈ d.brackets.left, Text.isBlank c = false := by
    simp [stage, zone, Dimension.ofItems, Text.isBlank, Text.blankRanges]
  obtain ⟨-, -, haccepted⟩ := parseKey_strips [stage, zone]
    "ho]st[ [[dev.d2]] |:z1|[[dev.d2]] "
  obtain ⟨hname, -, -, hagain⟩ := haccepted _ _ hparse
  exact ⟨hparse, hname, hagain hleft⟩

end Variants
