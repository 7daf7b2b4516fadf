import Variants.Proofs.Placeholder
import Variants.Proofs.Substitution

/-!
# Filling in leaves no placeholder

When what is put into a text has no character of any delimiter, and some
character that never stands between brackets, no placeholder can reach into it
or over it.  A placeholder in a filled-in text would then have stood in the text
before, so that each pass removes the placeholders of its dimension and brings
back none of the dimensions before it.
-/

namespace Variants

/-- A text that no placeholder of the brackets can reach into or contain. -/
structure Foreign (brackets : Brackets) (text : List Char) : Prop where
  unmarked : ∀ c ∈ text, c ∉ brackets.left ++ brackets.right
  beyond_signs : Placeholder.BeyondSigns text

variable {brackets : Brackets} {placeholder : Placeholder} {part text emitted more : List Char}

theorem Placeholder.getLast_mem_right (hpart : part <:+ placeholder.written brackets)
    (hne : part ≠ []) : part.getLast hne ∈ brackets.right := by
  have hlast : part.getLast hne =
      (placeholder.written brackets).getLast (placeholder.written_ne_nil brackets) :=
    hpart.getLast hne
  rw [hlast]
  simp [written, brackets.right_ne_nil]

theorem Foreign.eq_nil_of_prefix_append (h : Foreign brackets emitted)
    (hpart : part <:+ placeholder.written brackets) (hstarts : part <+: emitted ++ more) :
    part = [] := by
  by_contra hne
  rcases Nat.le_total part.length emitted.length with hle | hle
  · have hwithin := List.prefix_of_prefix_length_le hstarts (List.prefix_append _ more) hle
    have hlast := hwithin.subset (List.getLast_mem hne)
    exact h.unmarked _ hlast
      (List.mem_append_right _ (Placeholder.getLast_mem_right hpart hne))
  · have hover := List.prefix_of_prefix_length_le (List.prefix_append _ more) hstarts hle
    obtain ⟨c, hc, hsign⟩ := h.beyond_signs
    rcases Placeholder.mem_of_mem_written (hpart.subset (hover.subset hc)) with hmem | hmem
    · exact h.unmarked c hc hmem
    · exact hsign hmem

theorem FilledIn.nil : FilledIn brackets [] := by
  intro placeholder hpart
  exact placeholder.written_ne_nil brackets (List.infix_nil.mp hpart)

theorem FilledIn.cons {c : Char} (h : FilledIn brackets text)
    (hfirst : ∀ placeholder : Placeholder, ¬ placeholder.written brackets <+: c :: text) :
    FilledIn brackets (c :: text) := by
  intro placeholder hpart
  rcases List.infix_cons_iff.mp hpart with hstarts | hrest
  · exact hfirst placeholder hstarts
  · exact h placeholder hrest

theorem FilledIn.append (h : FilledIn brackets text)
    (hunmarked : ∀ c ∈ emitted, c ∉ brackets.left ++ brackets.right) :
    FilledIn brackets (emitted ++ text) := by
  induction emitted with
  | nil => exact h
  | cons c rest ih =>
      obtain ⟨hc, hrest⟩ := List.forall_mem_cons.mp hunmarked
      refine (ih hrest).cons fun placeholder hstarts => ?_
      obtain ⟨first, inner, hleft⟩ := List.exists_cons_of_ne_nil brackets.left_ne_nil
      rw [Placeholder.written, hleft, List.cons_append, List.cons_prefix_cons] at hstarts
      exact hc (by simp [hleft, hstarts.1])

/-! ## One pass -/

section Pass

variable {tuple : Tuple} {d : Dimension} {filled : List Char}
  (hforeign : ∀ (placeholder : Placeholder) text, placeholder.emitted? d tuple = some text →
    Foreign brackets text.toList)

include hforeign

theorem prefix_of_prefix_interpolateDimension
    (hpart : part <:+ placeholder.written brackets)
    (h : interpolateDimension tuple d text = .ok filled) (hstarts : part <+: filled) :
    part <+: text := by
  fun_induction interpolateDimension tuple d text generalizing part filled with
  | case1 =>
      cases h
      exact hstarts
  | case2 c rest hread ih =>
      obtain ⟨more, hmore, rfl⟩ := map_eq_ok_iff.mp h
      cases part with
      | nil => exact List.nil_prefix
      | cons first others =>
          obtain ⟨rfl, hothers⟩ := List.cons_prefix_cons.mp hstarts
          have hsuffix := (List.suffix_cons first others).trans hpart
          exact List.cons_prefix_cons.mpr ⟨rfl, ih hsuffix hmore hothers⟩
  | case3 => cases h
  | case4 c rest found length hread emitted htext ih =>
      obtain ⟨more, hmore, rfl⟩ := map_eq_ok_iff.mp h
      have hemitted := (Placeholder.text_eq_ok_iff.mp htext).2.1
      rw [(hforeign found emitted hemitted).eq_nil_of_prefix_append hpart hstarts]
      exact List.nil_prefix

/-- A pass leaves no placeholder of its own brackets, and adds none of any others. -/
theorem filledIn_interpolateDimension (htext : brackets = d.brackets ∨ FilledIn brackets text)
    (h : interpolateDimension tuple d text = .ok filled) : FilledIn brackets filled := by
  fun_induction interpolateDimension tuple d text generalizing filled with
  | case1 =>
      cases h
      exact .nil
  | case2 c rest hread ih =>
      have hrest := htext.imp id fun h : FilledIn brackets (c :: rest) =>
        h.of_suffix (List.suffix_cons c rest)
      obtain ⟨more, hmore, rfl⟩ := map_eq_ok_iff.mp h
      have hpass : interpolateDimension tuple d (c :: rest) = .ok (c :: more) := by
        rw [interpolateDimension, hread, hmore]
        rfl
      refine (ih hrest hmore).cons fun placeholder hstarts => ?_
      have hbefore :=
        prefix_of_prefix_interpolateDimension hforeign List.suffix_rfl hpass hstarts
      rcases htext with rfl | hfilled
      · rw [Placeholder.read?_eq_some_iff.mpr ⟨hbefore, rfl⟩] at hread
        cases hread
      · exact hfilled placeholder hbefore.isInfix
  | case3 => cases h
  | case4 c rest found length hread emitted hfound ih =>
      obtain ⟨more, hmore, rfl⟩ := map_eq_ok_iff.mp h
      have hemitted := (Placeholder.text_eq_ok_iff.mp hfound).2.1
      have hrest := htext.imp id fun h : FilledIn brackets (c :: rest) =>
        h.of_suffix ((List.drop_suffix (length - 1) rest).trans (List.suffix_cons c rest))
      exact (ih hrest hmore).append (hforeign found emitted hemitted).unmarked

end Pass

/-! ## All passes -/

variable {tuple : Tuple} {dimensions : List Dimension}

theorem filledIn_foldlM {result : List Char}
    (hforeign : ∀ d ∈ dimensions, ∀ (placeholder : Placeholder) text,
      placeholder.emitted? d tuple = some text → Foreign brackets text.toList)
    (htext : (∃ d ∈ dimensions, d.brackets = brackets) ∨ FilledIn brackets text)
    (h : dimensions.foldlM (fun text d => interpolateDimension tuple d text) text =
      .ok result) : FilledIn brackets result := by
  induction dimensions generalizing text with
  | nil =>
      cases h
      simpa using htext
  | cons d rest ih =>
      obtain ⟨hd, hrest⟩ := List.forall_mem_cons.mp hforeign
      rw [List.foldlM_cons] at h
      obtain ⟨next, hnext, hpasses⟩ := bind_eq_ok_iff.mp h
      refine ih hrest ?_ hpasses
      rcases htext with ⟨own, hown, rfl⟩ | hfilled
      · rcases List.mem_cons.mp hown with rfl | hlater
        · exact .inr (filledIn_interpolateDimension hd (.inl rfl) hnext)
        · exact .inl ⟨own, hlater, rfl⟩
      · exact .inr (filledIn_interpolateDimension hd (.inr hfilled) hnext)

/--
Where nothing that is put in has a character of a delimiter, or consists of the
signs of placeholders only, no placeholder of any dimension is left, and filling
in once more changes nothing.
-/
theorem interpolate_exhausts {value result : String}
    (hemitted : ∀ d ∈ dimensions, ∀ (placeholder : Placeholder) text,
      placeholder.emitted? d tuple = some text →
        Unmarked dimensions text.toList ∧ Placeholder.BeyondSigns text.toList)
    (h : interpolate dimensions tuple value = .ok result) :
    (∀ d ∈ dimensions, FilledIn d.brackets result.toList) ∧
      interpolate dimensions tuple result = .ok result := by
  have hfilled : ∀ d ∈ dimensions, FilledIn d.brackets result.toList := by
    intro d hd
    refine filledIn_foldlM (fun e he placeholder text htext => ?_) (.inl ⟨d, hd, rfl⟩)
      (interpolate_eq_ok_iff.mp h)
    obtain ⟨hunmarked, hsign⟩ := hemitted e he placeholder text htext
    exact ⟨hunmarked d hd, hsign⟩
  exact ⟨hfilled, interpolate_of_filledIn hfilled⟩

open Annotation (stage region zone) in
theorem interpolate_exhausts_nestedBrackets :
    interpolate [stage, region, zone] Piece.rackedStage "[[[@]]][[@]|:$|[" = .ok "[d1][fraz[" ∧
    (∀ d ∈ [stage, region, zone], FilledIn d.brackets "[d1][fraz[".toList) ∧
    interpolate [stage, region, zone] Piece.rackedStage "[d1][fraz[" = .ok "[d1][fraz[" := by
  have hnames : ∀ d ∈ [stage, region, zone], Unmarked [stage, region, zone] d.name.toList ∧
      Placeholder.BeyondSigns d.name.toList := by decide +kernel
  have htuple : ∀ entry ∈ Piece.rackedStage.entries, ∀ slot ∈ entry.2.entries,
      (Unmarked [stage, region, zone] slot.2.domain.toList ∧
        Placeholder.BeyondSigns slot.2.domain.toList) ∧
      (Unmarked [stage, region, zone] slot.2.value.toList ∧
        Placeholder.BeyondSigns slot.2.value.toList) := by decide +kernel
  have hresult : interpolate [stage, region, zone] Piece.rackedStage "[[[@]]][[@]|:$|[" =
      .ok "[d1][fraz[" := by decide +kernel
  exact ⟨hresult, interpolate_exhausts (fun d hd placeholder text h =>
    Placeholder.forall_emitted (fun text =>
      Unmarked [stage, region, zone] text.toList ∧ Placeholder.BeyondSigns text.toList)
      (hnames d hd) htuple placeholder h) hresult⟩

end Variants
