import Mathlib.Data.List.DropRight
import Mathlib.Data.List.Infix
import Variants.Text.Blank
import Variants.Text.Cut

/-!
# Cutting joined text

Text that was joined with a separator is cut into its parts again, up to the
first part that has the separator in it.  Blanks are removed at the ends only:
what stands before a character that is not blank stays.
-/

namespace Variants.Text

variable {mark : Char}

/-! ## Cuts -/

theorem splitAll_eq_splitOn (mark : Char) (text : List Char) :
    splitAll mark text = text.splitOn mark := by
  induction text with
  | nil => simp [splitAll]
  | cons c rest ih =>
      rw [List.splitOn_cons_eq_if_modifyHead, splitAll, ih]
      by_cases hc : c = mark
      · simp [hc]
      · have hne := List.splitOn_ne_nil mark rest
        cases hparts : rest.splitOn mark with
        | nil => exact absurd hparts hne
        | cons part parts => simp [hc]

theorem head?_splitAll (mark : Char) (text : List Char) :
    (splitAll mark text).head? = some (text.takeWhile (· ≠ mark)) := by
  induction text with
  | nil => rfl
  | cons c rest ih =>
      by_cases hc : c = mark
      · simp [splitAll, hc]
      · cases hparts : splitAll mark rest with
        | nil => exact absurd hparts (splitAll_ne_nil mark rest)
        | cons part parts =>
            rw [hparts] at ih
            simpa [splitAll, hc, hparts] using ih

theorem mem_of_mem_splitAll {text part : List Char} (hpart : part ∈ splitAll mark text) {c : Char}
    (hc : c ∈ part) : c ∈ text ∧ c ≠ mark := by
  induction text generalizing part with
  | nil =>
      rw [List.mem_singleton.mp hpart] at hc
      cases hc
  | cons first rest ih =>
      by_cases hfirst : first = mark
      · simp only [splitAll, hfirst, if_true, List.mem_cons] at hpart
        rcases hpart with rfl | hpart
        · cases hc
        · exact ⟨List.mem_cons_of_mem _ (ih hpart hc).1, (ih hpart hc).2⟩
      · cases hparts : splitAll mark rest with
        | nil => exact absurd hparts (splitAll_ne_nil mark rest)
        | cons next parts =>
            simp only [splitAll, hfirst, if_false, hparts, List.mem_cons] at hpart ih
            rcases hpart with rfl | hpart
            · rcases List.mem_cons.mp hc with rfl | hc
              · exact ⟨List.mem_cons_self, hfirst⟩
              · exact ⟨List.mem_cons_of_mem _ (ih (.inl rfl) hc).1, (ih (.inl rfl) hc).2⟩
            · exact ⟨List.mem_cons_of_mem _ (ih (.inr hpart) hc).1, (ih (.inr hpart) hc).2⟩

theorem splitAll_intercalate {parts : List (List Char)} (hne : parts ≠ []) :
    splitAll mark ([mark].intercalate parts) = parts.flatMap (splitAll mark) := by
  induction parts with
  | nil => exact absurd rfl hne
  | cons part rest ih =>
      cases rest with
      | nil => simp
      | cons next parts =>
          rw [List.flatMap_cons, ← ih (List.cons_ne_nil _ _)]
          simp only [splitAll_eq_splitOn, List.intercalate_cons_cons, List.append_assoc,
            List.cons_append, List.nil_append, List.splitOn_append_cons_self]

theorem getElem?_splitAll_intercalate {parts : List (List Char)} (hne : parts ≠ []) {index : Nat}
    (h : ∀ part ∈ parts.take index, mark ∉ part) :
    (splitAll mark ([mark].intercalate parts))[index]? =
      parts[index]?.map fun part => part.takeWhile (· ≠ mark) := by
  rw [splitAll_intercalate hne]
  clear hne
  induction parts generalizing index with
  | nil => simp
  | cons part rest ih =>
      cases index with
      | zero =>
          have hhead := head?_splitAll mark part
          cases hparts : splitAll mark part with
          | nil => exact absurd hparts (splitAll_ne_nil mark part)
          | cons first others =>
              rw [hparts] at hhead
              simpa [hparts] using hhead
      | succ index =>
          rw [List.take_succ_cons, List.forall_mem_cons] at h
          have hpart : splitAll mark part = [part] := by
            rw [splitAll_eq_splitOn, List.splitOn_eq_singleton h.1]
          simpa [hpart] using ih h.2

theorem mem_intercalate_of_mem {parts : List (List Char)} {part : List Char}
    (hpart : part ∈ parts) {c : Char} (hc : c ∈ part) : c ∈ [mark].intercalate parts := by
  induction parts with
  | nil => cases hpart
  | cons first rest ih =>
      cases rest with
      | nil =>
          rw [List.mem_singleton.mp hpart] at hc
          simpa using hc
      | cons next others =>
          rw [List.intercalate_cons_cons, List.append_assoc, List.mem_append]
          rcases List.mem_cons.mp hpart with rfl | hpart
          · exact .inl hc
          · exact .inr (List.mem_append_right _ (ih hpart))

theorem mem_intercalate {parts : List (List Char)} {c : Char}
    (h : c ∈ [mark].intercalate parts) : c = mark ∨ ∃ part ∈ parts, c ∈ part := by
  induction parts with
  | nil => cases h
  | cons first rest ih =>
      cases rest with
      | nil => exact .inr ⟨first, List.mem_cons_self, by simpa using h⟩
      | cons next others =>
          simp only [List.intercalate_cons_cons, List.mem_append, List.mem_singleton] at h
          rcases h with (hfirst | hmark) | hrest
          · exact .inr ⟨first, List.mem_cons_self, hfirst⟩
          · exact .inl hmark
          · rcases ih hrest with hmark | ⟨part, hpart, hc⟩
            · exact .inl hmark
            · exact .inr ⟨part, List.mem_cons_of_mem _ hpart, hc⟩

theorem splitOnce_append_cons {before : List Char} (h : mark ∉ before) (after : List Char) :
    splitOnce mark (before ++ mark :: after) = some (before, after) := by
  induction before with
  | nil => simp [splitOnce]
  | cons c rest ih =>
      rw [List.mem_cons, not_or] at h
      simp [splitOnce, Ne.symm h.1, ih h.2]

/-! ## Blanks at the ends -/

theorem trimEnd_append_cons {c : Char} (hc : isBlank c = false) (before after : List Char) :
    trimEnd (before ++ c :: after) = before ++ c :: trimEnd after := by
  simp [trimEnd, List.dropWhile_append, hc]

theorem trim_cons {c : Char} (hc : isBlank c = false) (rest : List Char) :
    trim (c :: rest) = c :: trimEnd rest := by
  have hstart : trimStart (c :: rest) = c :: rest := by simp [trimStart, hc]
  rw [trim, hstart]
  exact trimEnd_append_cons hc [] rest

theorem trimEnd_eq_self_iff {text : List Char} :
    trimEnd text = text ↔ text.getLast?.any isBlank = false := by
  refine (List.rdropWhile_eq_self_iff (p := isBlank)).trans ?_
  cases text with
  | nil => simp
  | cons c rest => simp [List.getLast?_eq_some_getLast]

theorem trimEnd_isPrefix (text : List Char) : trimEnd text <+: text :=
  List.rdropWhile_prefix isBlank text

theorem trimEnd_takeWhile_eq_self_iff {text : List Char} :
    trimEnd (text.takeWhile (· ≠ mark)) = text ↔
      mark ∉ text ∧ text.getLast?.any isBlank = false := by
  have hwhole : text.takeWhile (· ≠ mark) = text ↔ mark ∉ text := by
    rw [List.takeWhile_eq_self_iff]
    constructor
    · exact fun h hmem => of_decide_eq_true (h mark hmem) rfl
    · exact fun h c hc => decide_eq_true fun heq => h (heq ▸ hc)
  constructor
  · intro h
    have htake : text.takeWhile (· ≠ mark) = text := by
      apply (List.takeWhile_prefix _).eq_of_length_le
      rw [← congrArg List.length h]
      exact (trimEnd_isPrefix _).length_le
    rw [htake] at h
    exact ⟨hwhole.mp htake, trimEnd_eq_self_iff.mp h⟩
  · rintro ⟨hmark, hlast⟩
    rw [hwhole.mpr hmark, trimEnd_eq_self_iff.mpr hlast]

theorem mem_of_mem_trim {text : List Char} {c : Char} (h : c ∈ trim text) : c ∈ text :=
  (List.dropWhile_suffix isBlank).subset ((trimEnd_isPrefix (trimStart text)).subset h)

theorem exists_trim_eq_cons {text : List Char} (h : trim text ≠ []) :
    ∃ c rest, trim text = c :: rest ∧ isBlank c = false := by
  obtain ⟨c, rest, htrim⟩ := List.exists_cons_of_ne_nil h
  obtain ⟨more, hmore⟩ := trimEnd_isPrefix (trimStart text)
  have hstart : text.dropWhile isBlank = c :: (rest ++ more) := by
    rw [← List.cons_append, ← htrim]
    exact hmore.symm
  refine ⟨c, rest, htrim, ?_⟩
  have hhead := List.head?_dropWhile_not isBlank text
  simpa [hstart] using hhead

theorem trim_append_of_isBlank {blanks : List Char} (h : ∀ c ∈ blanks, isBlank c = true)
    (text : List Char) : trim (text ++ blanks) = trim text := by
  have hstart : blanks.dropWhile isBlank = [] := List.dropWhile_eq_nil_iff.mpr h
  have hend : trimEnd blanks = [] := List.rdropWhile_eq_nil_iff.mpr h
  cases hrest : trimStart text with
  | nil =>
      have happend : trimStart (text ++ blanks) = [] := by
        simp_all [trimStart]
      rw [trim, trim, hrest, happend]
  | cons c rest =>
      have happend : trimStart (text ++ blanks) = trimStart text ++ blanks := by
        simp_all [trimStart, List.dropWhile_append]
      rw [trim, trim, happend]
      simp_all [trimEnd, List.dropWhile_append]

/-! ## Cuts of text with blanks at its ends -/

theorem exists_splitAll_append {more : List Char} (h : mark ∉ more) (text : List Char) :
    ∃ front last, splitAll mark text = front ++ [last] ∧
      splitAll mark (text ++ more) = front ++ [last ++ more] := by
  induction text with
  | nil => exact ⟨[], [], rfl, by simp [splitAll_eq_splitOn, List.splitOn_eq_singleton h]⟩
  | cons c rest ih =>
      obtain ⟨front, last, hrest, hmore⟩ := ih
      by_cases hc : c = mark
      · exact ⟨[] :: front, last, by simp [splitAll, hc, hrest], by simp [splitAll, hc, hmore]⟩
      · cases front with
        | nil => exact ⟨[], c :: last, by simp_all [splitAll], by simp_all [splitAll]⟩
        | cons first front =>
            exact ⟨(c :: first) :: front, last, by simp_all [splitAll], by simp_all [splitAll]⟩

section Blank

variable (hmark : isBlank mark = false)

include hmark

theorem map_trim_splitAll_trimStart (text : List Char) :
    (splitAll mark (trimStart text)).map trim = (splitAll mark text).map trim := by
  induction text with
  | nil => rfl
  | cons c rest ih =>
      by_cases hc : isBlank c = true
      · have hne : c ≠ mark := by
          rintro rfl
          simp [hc] at hmark
        have hdrop : trimStart (c :: rest) = trimStart rest := by simp [trimStart, hc]
        rw [hdrop, ih]
        cases hparts : splitAll mark rest with
        | nil => exact absurd hparts (splitAll_ne_nil mark rest)
        | cons part parts => simp [splitAll, hne, hparts, trim, trimStart, hc]
      · simp [trimStart, hc]

theorem map_trim_splitAll_trimEnd (text : List Char) :
    (splitAll mark (trimEnd text)).map trim = (splitAll mark text).map trim := by
  have hblank : ∀ c ∈ text.rtakeWhile isBlank, isBlank c = true :=
    fun c hc => List.mem_rtakeWhile_imp hc
  have hnot : mark ∉ text.rtakeWhile isBlank := fun hmem => by simp [hblank mark hmem] at hmark
  obtain ⟨front, last, hfront, hmore⟩ := exists_splitAll_append hnot (trimEnd text)
  have hwhole : trimEnd text ++ text.rtakeWhile isBlank = text := List.rdropWhile_append_rtakeWhile
  rw [hwhole] at hmore
  rw [hfront, hmore, List.map_append, List.map_append, List.map_singleton, List.map_singleton,
    trim_append_of_isBlank hblank]

theorem map_trim_splitAll_trim (text : List Char) :
    (splitAll mark (trim text)).map trim = (splitAll mark text).map trim :=
  (map_trim_splitAll_trimEnd hmark _).trans (map_trim_splitAll_trimStart hmark text)

theorem mem_trim_iff {text : List Char} : mark ∈ trim text ↔ mark ∈ text := by
  refine ⟨mem_of_mem_trim, fun hmem => ?_⟩
  have hnot : ∀ {blanks : List Char}, (∀ c ∈ blanks, isBlank c = true) → mark ∉ blanks :=
    fun hblanks hmark' => by simp [hblanks mark hmark'] at hmark
  have hend : trim text ++ (trimStart text).rtakeWhile isBlank = trimStart text :=
    List.rdropWhile_append_rtakeWhile
  have hstart : mark ∈ trimStart text := by
    rw [← List.takeWhile_append_dropWhile (p := isBlank) (l := text)] at hmem
    exact (List.mem_append.mp hmem).resolve_left (hnot fun c hc => List.mem_takeWhile_imp hc)
  rw [← hend] at hstart
  exact (List.mem_append.mp hstart).resolve_right (hnot fun c hc => List.mem_rtakeWhile_imp hc)

end Blank

end Variants.Text
