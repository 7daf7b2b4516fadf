import Mathlib.Data.List.Forall2
import Variants.Interpolation
import Variants.Proofs.Excision
import Variants.Proofs.Outcome
import Variants.Proofs.Tuple

/-!
# What placeholders put into a text

Filling in the placeholders of a dimension needs its name, brackets and
registers and the selections that the tuple has for it.  A text without the left
delimiter has no placeholder, and a filled-in text has no characters but those
of the text, of the name and of the selected domains and values.
-/

namespace Variants

structure Dimension.Alike (a b : Dimension) : Prop where
  name_eq : a.name = b.name
  brackets_eq : a.brackets = b.brackets
  hasRegister_eq : ∀ register, a.hasRegister register = b.hasRegister register

theorem Dimension.Alike.refl (d : Dimension) : d.Alike d := ⟨rfl, rfl, fun _ => rfl⟩

def Tuple.AgreeAt (name : String) (s t : Tuple) : Prop :=
  ∀ register, s.selection? name register = t.selection? name register

theorem Tuple.agreeAt_of_same {s t : Tuple} (h : s.same t = true) (name : String) :
    AgreeAt name s t :=
  fun register => selection?_of_same h name register

theorem Tuple.agreeAt_insert (tuple : Tuple) {dimension name : String} (h : name ≠ dimension)
    (fragment : Fragment) : AgreeAt name tuple (tuple.insert dimension fragment) := by
  intro register
  rw [selection?_eq_chosen, selection?_eq_chosen, chosen_insert, if_neg h.symm]

/-! ## Agreement -/

section Agreement

variable {s t : Tuple} {a b : Dimension}

theorem Placeholder.text_congr (h : a.Alike b) (hagree : Tuple.AgreeAt a.name s t)
    (placeholder : Placeholder) : placeholder.text a s = placeholder.text b t := by
  have hselection := hagree placeholder.register
  rw [h.name_eq] at hselection
  simp only [Placeholder.text, h.name_eq, h.hasRegister_eq, hselection]

theorem interpolateDimension_congr (h : a.Alike b) (hagree : Tuple.AgreeAt a.name s t)
    (text : List Char) : interpolateDimension s a text = interpolateDimension t b text := by
  fun_induction interpolateDimension s a text with
  | case1 => simp [interpolateDimension]
  | case2 c rest hread ih => simp [interpolateDimension, ← h.brackets_eq, hread, ih]
  | case3 c rest placeholder length hread error htext =>
      rw [Placeholder.text_congr h hagree] at htext
      simp [interpolateDimension, ← h.brackets_eq, hread, htext]
  | case4 c rest placeholder length hread emitted htext ih =>
      rw [Placeholder.text_congr h hagree] at htext
      simp [interpolateDimension, ← h.brackets_eq, hread, htext, ih]

theorem interpolate_congr {as bs : List Dimension}
    (h : List.Forall₂ (fun a b => a.Alike b ∧ Tuple.AgreeAt a.name s t) as bs) (value : String) :
    interpolate as s value = interpolate bs t value := by
  have hfold : ∀ text : List Char,
      as.foldlM (fun text d => interpolateDimension s d text) text =
        bs.foldlM (fun text d => interpolateDimension t d text) text := by
    induction h with
    | nil => exact fun _ => rfl
    | cons hfirst _ ih =>
        intro text
        simp only [List.foldlM_cons, interpolateDimension_congr hfirst.1 hfirst.2, ih]
  rw [interpolate, interpolate, hfold]

end Agreement

/-! ## Texts without placeholders -/

variable {tuple : Tuple} {d : Dimension}

theorem Placeholder.read?_of_absent {brackets : Brackets} {text : List Char}
    (h : ¬ brackets.left <:+: text) : read? brackets text = none := by
  have hprefix : ¬ brackets.left <+: text := fun hprefix => h hprefix.isInfix
  simp [read?, hprefix]

theorem interpolateDimension_of_absent {text : List Char} (h : ¬ d.brackets.left <:+: text) :
    interpolateDimension tuple d text = .ok text := by
  induction text with
  | nil => simp [interpolateDimension]
  | cons c rest ih =>
      have hrest : ¬ d.brackets.left <:+: rest := fun hpart =>
        h (hpart.trans (List.suffix_cons c rest).isInfix)
      rw [interpolateDimension, Placeholder.read?_of_absent h, ih hrest]
      rfl

theorem interpolate_of_absent {dimensions : List Dimension} {value : String}
    (h : ∀ d ∈ dimensions, ¬ d.brackets.left <:+: value.toList) :
    interpolate dimensions tuple value = .ok value := by
  have hfold : dimensions.foldlM (fun text d => interpolateDimension tuple d text)
      value.toList = .ok value.toList :=
    foldlM_eq_self fun d hd => interpolateDimension_of_absent (h d hd)
  simp [interpolate, hfold, Except.mapError, Except.map]

/-! ## Characters of filled-in texts -/

structure Dimension.Lacks (d : Dimension) (tuple : Tuple) (c : Char) : Prop where
  name : c ∉ d.name.toList
  selected : ∀ register selection, tuple.selection? d.name register = some selection →
    c ∉ selection.domain.toList ∧ c ∉ selection.value.toList

variable {c : Char}

theorem Placeholder.not_mem_text (h : d.Lacks tuple c) {placeholder : Placeholder} {text : String}
    (htext : placeholder.text d tuple = .ok text) : c ∉ text.toList := by
  have hselected := h.selected placeholder.register
  simp only [Placeholder.text] at htext
  split at htext
  · split at htext
    · cases htext
    · next emitted hemitted =>
      split at htext
      · cases htext
      · cases htext
        split at hemitted
        · cases hemitted
          exact h.name
        · obtain ⟨selection, hselection, rfl⟩ := Option.map_eq_some_iff.mp hemitted
          exact (hselected selection hselection).2
        · obtain ⟨selection, hselection, rfl⟩ := Option.map_eq_some_iff.mp hemitted
          exact (hselected selection hselection).1
  · cases htext

theorem not_mem_interpolateDimension (h : d.Lacks tuple c) {text filled : List Char}
    (hnot : c ∉ text) (hfilled : interpolateDimension tuple d text = .ok filled) :
    c ∉ filled := by
  fun_induction interpolateDimension tuple d text generalizing filled with
  | case1 => cases hfilled; exact hnot
  | case2 first rest hread ih =>
      obtain ⟨hfirst, hrest⟩ := List.ne_and_not_mem_of_not_mem_cons hnot
      obtain ⟨more, hmore, rfl⟩ := map_eq_ok_iff.mp hfilled
      exact List.not_mem_cons_of_ne_of_not_mem hfirst (ih hrest hmore)
  | case3 => cases hfilled
  | case4 first rest placeholder length hread emitted htext ih =>
      have hrest : c ∉ rest.drop (length - 1) := fun hmem =>
        hnot (List.mem_cons_of_mem first (List.mem_of_mem_drop hmem))
      obtain ⟨more, hmore, rfl⟩ := map_eq_ok_iff.mp hfilled
      simpa using ⟨Placeholder.not_mem_text h htext, ih hrest hmore⟩

end Variants
