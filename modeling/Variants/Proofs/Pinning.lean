import Variants.Proofs.Naming
import Variants.Proofs.Resolution
import Variants.Proofs.Tuple

/-!
# Fragments as expressions

The expression of a fragment has one segment for each register that is set, and
nothing between the colons of the others.  What is read back of a selection is
its domain and its value up to a colon, without blanks at the end.  If nothing
is lost that way, the expression pins the fragment down: its conditions are met
by the selections of the fragment and by no others.
-/

namespace Variants

/-! ## Selections -/

namespace Selection

def text (selection : Selection) : List Char :=
  selection.domain.toList ++ '.' :: selection.value.toList

/-- What is read where the selection was written. -/
def segment (selection : Selection) : List Char :=
  selection.domain.toList ++ '.' :: Text.trimEnd (selection.value.toList.takeWhile (· ≠ ':'))

/-- The domain has no point, the value no comma, no colon and no blank at its end. -/
def Representable (selection : Selection) : Prop :=
  '.' ∉ selection.domain.toList ∧ ',' ∉ selection.value.toList ∧
    ':' ∉ selection.value.toList ∧ selection.value.toList.getLast?.any Text.isBlank = false

instance (selection : Selection) : Decidable selection.Representable :=
  inferInstanceAs (Decidable (_ ∧ _))

variable {selection : Selection}

theorem trim_text (h : Expression.IsSegment selection.domain.toList) :
    Text.trim (selection.text.takeWhile (· ≠ ':')) = selection.segment := by
  have hcolon : ∀ c ∈ selection.domain.toList, decide (c ≠ ':') = true := by
    intro c hc
    exact decide_eq_true fun heq => h.no_colon (heq ▸ hc)
  obtain ⟨first, rest, hdomain, hblank⟩ := h.exists_cons
  rw [text, List.takeWhile_append_of_pos hcolon, segment, hdomain, List.cons_append,
    Text.trim_cons hblank, List.takeWhile_cons_of_pos (by decide),
    Text.trimEnd_append_cons (by decide), List.cons_append]

theorem segment_eq_text_iff :
    selection.segment = selection.text ↔
      ':' ∉ selection.value.toList ∧ selection.value.toList.getLast?.any Text.isBlank = false := by
  rw [segment, text, List.append_cancel_left_eq, List.cons.injEq,
    ← Text.trimEnd_takeWhile_eq_self_iff]
  simp

theorem Representable.segment_eq_text (h : selection.Representable) :
    selection.segment = selection.text :=
  segment_eq_text_iff.mpr h.2.2

end Selection

/-! ## Conditions that pin a selection down -/

def Condition.pin (dimension : String) (register : Register) (selection : Selection) : Condition :=
  ⟨dimension, register, .single selection.domain [selection.value]⟩

namespace Dimension

variable {d : Dimension} {register : Register} {selection : Selection} {c : Condition}

theorem ResolvesTo.selection_eq (h : d.ResolvesTo (register, selection.segment) c)
    {tuple : Tuple} (hselection : tuple.selection? d.name register = some selection)
    (hmeets : tuple.meets c = true) :
    '.' ∉ selection.domain.toList ∧ selection.segment = selection.text := by
  have hresolve := h.domains_eq
  cases hsplit : Text.splitOnce '.' selection.segment with
  | none =>
      have hpoint := Text.splitOnce_eq_none_iff.mp hsplit
      simp [Selection.segment] at hpoint
  | some parts =>
      obtain ⟨before, after⟩ := parts
      obtain ⟨hsegment, hbefore⟩ := Text.eq_append_of_splitOnce hsplit
      rw [d.resolve?_of_splitOnce hsplit, Option.ite_none_right_eq_some,
        Option.some.injEq] at hresolve
      rw [Tuple.meets_of_singleton hresolve.2.symm, h.dimension_eq, h.register_eq,
        hselection, Option.some.injEq] at hmeets
      rw [hsegment, hmeets]
      simpa [Selection.text] using hbefore

theorem resolvesTo_pin (h : selection.Representable)
    (hvalue : d.hasValue register selection.domain selection.value = true) :
    d.ResolvesTo (register, selection.segment) (.pin d.name register selection) := by
  have hregister : d.hasRegister register = true := by
    obtain ⟨item, hitem, hat, -⟩ := d.mem_values.mp (d.hasValue_iff.mp hvalue)
    exact d.hasRegister_iff.mpr (d.mem_registers.mpr ⟨item, hitem, hat⟩)
  refine ⟨rfl, rfl, hregister, ?_⟩
  have hsplit := Text.splitOnce_append_cons h.1 selection.value.toList
  rw [← Selection.text, ← h.segment_eq_text] at hsplit
  rw [d.resolve?_of_splitOnce hsplit]
  simp [hvalue, Condition.pin]

end Dimension

/-! ## Fragments -/

namespace Fragment

variable {fragment : Fragment}

def part (fragment : Fragment) (index : Nat) : List Char :=
  (fragment.get? ⟨index⟩).elim [] Selection.text

theorem le_foldl_max (numbers : List Nat) (start : Nat) :
    start ≤ numbers.foldl max start ∧ ∀ n ∈ numbers, n ≤ numbers.foldl max start := by
  induction numbers generalizing start with
  | nil => simp
  | cons first rest ih =>
      obtain ⟨hstart, hrest⟩ := ih (max start first)
      simp only [List.foldl_cons, List.forall_mem_cons]
      exact ⟨by omega, by omega, hrest⟩

theorem toList_expression (fragment : Fragment) :
    ∃ last, (∀ register ∈ fragment.keys, register.index ≤ last) ∧
      fragment.expression.toList =
        [':'].intercalate ((List.range (last + 1)).map fragment.part) := by
  refine ⟨(fragment.keys.map (·.index)).foldl max 0, fun register hregister => ?_, ?_⟩
  · exact (le_foldl_max _ 0).2 _ (List.mem_map_of_mem hregister)
  · rw [expression, String.toList_intercalate, List.map_map]
    refine congrArg (List.intercalate [':']) (List.map_congr_left fun index _ => ?_)
    rw [Function.comp_apply, part]
    cases fragment.get? ⟨index⟩ with
    | none => rfl
    | some selection => simp [Selection.text, ToString.toString]

theorem mem_segments_expression_iff
    (hdomains : ∀ register selection, fragment.get? register = some selection →
      Expression.IsSegment selection.domain.toList)
    {found : List (Register × List Char)}
    (hfound : Expression.segments fragment.expression.toList = .ok found) {register : Register}
    (hearlier : ∀ earlier selection, earlier.index < register.index →
      fragment.get? earlier = some selection → ':' ∉ selection.value.toList) {name : List Char} :
    (register, name) ∈ found ↔
      ∃ selection, fragment.get? register = some selection ∧ name = selection.segment := by
  obtain ⟨last, hlast, hexpression⟩ := toList_expression fragment
  have hparts : ∀ part ∈ ((List.range (last + 1)).map fragment.part).take register.index,
      ':' ∉ part := by
    intro text htext
    rw [← List.map_take, List.take_range] at htext
    obtain ⟨index, hindex, rfl⟩ := List.mem_map.mp htext
    have hindex : index < register.index := by
      simp at hindex
      omega
    rw [part]
    cases hget : fragment.get? ⟨index⟩ with
    | none => simp
    | some selection =>
        have hdomain := (hdomains ⟨index⟩ selection hget).no_colon
        have hvalue := hearlier ⟨index⟩ selection hindex hget
        simp [Selection.text, hdomain, hvalue]
  rw [Expression.mem_segments_iff hfound, hexpression,
    Text.getElem?_splitAll_intercalate (by simp) hparts, Option.map_map, List.getElem?_map,
    Option.map_map]
  cases hget : fragment.get? register with
  | none =>
      have hpart : fragment.part register.index = [] := by rw [part, hget, Option.elim_none]
      by_cases hindex : register.index < last + 1
      · simp [hindex, hpart, eq_comm]
      · simp [hindex]
  | some selection =>
      have hindex := hlast register (OrderedMap.mem_keys_iff.mpr ⟨selection, hget⟩)
      have hpart : fragment.part register.index = selection.text := by
        rw [part, hget, Option.elim_some]
      have hne : selection.segment ≠ [] := by simp [Selection.segment]
      rw [List.getElem?_range (by omega), Option.map_some]
      simp only [Function.comp_apply, hpart, Selection.trim_text (hdomains register selection hget),
        Option.some.injEq, exists_eq_left']
      constructor
      · exact fun h => h.2.symm
      · rintro rfl
        exact ⟨hne, rfl⟩

theorem mem_expression_of_mem {register : Register} {selection : Selection}
    (hget : fragment.get? register = some selection) {c : Char} (hc : c ∈ selection.text) :
    c ∈ fragment.expression.toList := by
  obtain ⟨last, hlast, hexpression⟩ := toList_expression fragment
  have hindex := hlast register (OrderedMap.mem_keys_iff.mpr ⟨selection, hget⟩)
  have hpart : fragment.part register.index = selection.text := by
    rw [part, hget, Option.elim_some]
  rw [hexpression]
  refine Text.mem_intercalate_of_mem (List.mem_map.mpr ⟨register.index, ?_, hpart⟩) hc
  exact List.mem_range.mpr (by omega)

theorem exists_of_mem_expression {c : Char} (h : c ∈ fragment.expression.toList) :
    c = ':' ∨ ∃ register selection, fragment.get? register = some selection ∧
      c ∈ selection.text := by
  obtain ⟨last, -, hexpression⟩ := toList_expression fragment
  rw [hexpression] at h
  rcases Text.mem_intercalate h with hcolon | ⟨part, hpart, hc⟩
  · exact .inl hcolon
  · obtain ⟨index, -, rfl⟩ := List.mem_map.mp hpart
    rw [Fragment.part] at hc
    cases hget : fragment.get? ⟨index⟩ with
    | none => simp [hget] at hc
    | some selection => exact .inr ⟨⟨index⟩, selection, hget, by simpa [hget] using hc⟩

end Fragment

/-! ## Expressions that pin a fragment down -/

namespace Dimension

variable {d : Dimension} {fragment : Fragment} (hnamed : d.Named)
  (hvalues : ∀ register selection, fragment.get? register = some selection →
    d.hasValue register selection.domain selection.value = true)

include hnamed hvalues

theorem isSegment_of_get? : ∀ register selection, fragment.get? register = some selection →
    Expression.IsSegment selection.domain.toList := by
  intro register selection hget
  obtain ⟨item, hitem, -, hdomain, -⟩ :=
    d.mem_values.mp (d.hasValue_iff.mp (hvalues register selection hget))
  rw [← hdomain]
  exact hnamed.isSegment item hitem

theorem representable_of_meets {tuple : Tuple} (hfragment : tuple.get? d.name = some fragment)
    {conditions : List Condition}
    (hconditions : Expression.conditions d fragment.expression.toList = .ok conditions)
    (hmeets : ∀ c ∈ conditions, tuple.meets c = true) {register : Register}
    {selection : Selection} (hget : fragment.get? register = some selection) :
    selection.Representable := by
  obtain ⟨found, hfound, hresolved⟩ := Expression.conditions_eq_ok_iff.mp hconditions
  have hdomains := isSegment_of_get? hnamed hvalues
  -- By induction on the register: its segment is in place when those before it are exact.
  have hexact : ∀ index selection, fragment.get? ⟨index⟩ = some selection →
      '.' ∉ selection.domain.toList ∧ selection.segment = selection.text := by
    intro index
    induction index using Nat.strongRecOn with
    | ind index ih =>
        intro selection hget
        have hearlier : ∀ earlier other, earlier.index < index →
            fragment.get? earlier = some other → ':' ∉ other.value.toList :=
          fun earlier other hlt hother =>
            (Selection.segment_eq_text_iff.mp (ih earlier.index hlt other hother).2).1
        have hmem := (Fragment.mem_segments_expression_iff hdomains hfound hearlier).mpr
          ⟨selection, hget, rfl⟩
        obtain ⟨c, hc, hresolves⟩ := exists_mem_of_forall₂ hresolved.flip hmem
        refine ResolvesTo.selection_eq hresolves ?_ (hmeets c hc)
        rw [Tuple.selection?, hfragment, Option.bind_some, hget]
  obtain ⟨hpoint, hsegment⟩ := hexact register.index selection hget
  refine ⟨hpoint, fun hcomma => ?_, Selection.segment_eq_text_iff.mp hsegment⟩
  apply (Expression.segments_eq_ok_iff.mp hfound).1
  apply Fragment.mem_expression_of_mem hget
  simp [Selection.text, hcomma]

theorem no_comma_of_representable
    (h : ∀ register selection, fragment.get? register = some selection →
      selection.Representable) : ',' ∉ fragment.expression.toList := by
  intro hmem
  rcases Fragment.exists_of_mem_expression hmem with hcolon | ⟨register, selection, hget, hc⟩
  · exact absurd hcolon (by decide)
  · have hdomain := (isSegment_of_get? hnamed hvalues register selection hget).no_comma
    have hvalue := (h register selection hget).2.1
    simp [Selection.text, hdomain, hvalue] at hc

theorem exists_conditions_of_representable
    (h : ∀ register selection, fragment.get? register = some selection →
      selection.Representable) :
    ∃ conditions, Expression.conditions d fragment.expression.toList = .ok conditions ∧
      ∀ c, c ∈ conditions ↔ ∃ register selection,
        fragment.get? register = some selection ∧ c = .pin d.name register selection := by
  have hdomains := isSegment_of_get? hnamed hvalues
  have hcomma := no_comma_of_representable hnamed hvalues h
  have hfound := Expression.segments_eq_ok_iff.mpr ⟨hcomma, rfl⟩
  generalize List.filterMap _ _ = found at hfound
  have hsegments : ∀ segment, segment ∈ found ↔ ∃ selection,
      fragment.get? segment.1 = some selection ∧ segment.2 = selection.segment := fun segment =>
    Fragment.mem_segments_expression_iff hdomains hfound
      fun earlier other _ hget => (h earlier other hget).2.2.1
  have hpinned : ∀ segment ∈ found, ∃ c, d.ResolvesTo segment c ∧ ∃ selection,
      fragment.get? segment.1 = some selection ∧ c = .pin d.name segment.1 selection := by
    rintro ⟨register, name⟩ hsegment
    obtain ⟨selection, hget, rfl⟩ := (hsegments _).mp hsegment
    exact ⟨_, resolvesTo_pin (h register selection hget) (hvalues register selection hget),
      selection, hget, rfl⟩
  obtain ⟨conditions, hconditions⟩ := exists_forall₂_of_forall hpinned
  refine ⟨conditions, Expression.conditions_eq_ok_iff.mpr
    ⟨found, hfound, hconditions.imp fun _ _ => And.left⟩, fun c => ⟨fun hc => ?_, ?_⟩⟩
  · obtain ⟨segment, -, -, selection, hget, hpin⟩ := exists_mem_of_forall₂ hconditions hc
    exact ⟨segment.1, selection, hget, hpin⟩
  · rintro ⟨register, selection, hget, rfl⟩
    have hsegment := (hsegments (register, selection.segment)).mpr ⟨selection, hget, rfl⟩
    obtain ⟨c, hc, -, other, hother, rfl⟩ := exists_mem_of_forall₂ hconditions.flip hsegment
    cases hget.symm.trans hother
    exact hc

end Dimension

end Variants
