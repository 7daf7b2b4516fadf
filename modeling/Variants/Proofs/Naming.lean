import Variants.Proofs.Reachable
import Variants.Proofs.Text

/-!
# Names in reachable configurations

A domain is named by a segment of a key, so its name starts with a character
that is not blank and has no comma and no colon in it.  Filters keep names, and
so every configuration that can be reached has names of this form.
-/

namespace Variants

/-! ## Segments -/

structure Expression.IsSegment (name : List Char) : Prop where
  exists_cons : ∃ c rest, name = c :: rest ∧ Text.isBlank c = false
  no_comma : ',' ∉ name
  no_colon : ':' ∉ name

namespace Expression

theorem segments_eq_ok_iff {expression : List Char} {found : List (Register × List Char)} :
    segments expression = .ok found ↔ ',' ∉ expression ∧
      found = ((Text.splitAll ':' expression).map Text.trim).zipIdx.filterMap fun segment =>
        if segment.1.isEmpty then none else some (⟨segment.2⟩, segment.1) := by
  unfold segments
  split
  · next hcomma => simp [hcomma]
  · next hcomma =>
      simp only [Except.ok.injEq, hcomma, not_false_eq_true, true_and]
      exact eq_comm

theorem mem_segments_iff {expression : List Char} {found : List (Register × List Char)}
    (h : segments expression = .ok found) {register : Register} {name : List Char} :
    (register, name) ∈ found ↔
      name ≠ [] ∧ ((Text.splitAll ':' expression)[register.index]?).map Text.trim = some name := by
  obtain ⟨-, rfl⟩ := segments_eq_ok_iff.mp h
  simp only [List.mem_filterMap, Prod.exists, List.mem_zipIdx_iff_getElem?, List.getElem?_map,
    Option.ite_none_left_eq_some, Option.some.injEq, Prod.mk.injEq, List.isEmpty_iff]
  constructor
  · rintro ⟨_, index, hget, hne, rfl, rfl⟩
    exact ⟨hne, hget⟩
  · rintro ⟨hne, hget⟩
    exact ⟨name, register.index, hget, hne, rfl, rfl⟩

theorem isSegment_of_mem_segments {expression : List Char} {found : List (Register × List Char)}
    (h : segments expression = .ok found) {segment : Register × List Char}
    (hsegment : segment ∈ found) : IsSegment segment.2 := by
  obtain ⟨hne, hget⟩ := (mem_segments_iff h).mp hsegment
  obtain ⟨part, hpart, htrim⟩ := Option.map_eq_some_iff.mp hget
  obtain ⟨hcomma, -⟩ := segments_eq_ok_iff.mp h
  have hmem : ∀ c ∈ segment.2, c ∈ expression ∧ c ≠ ':' := by
    intro c hc
    rw [← htrim] at hc
    exact Text.mem_of_mem_splitAll (List.mem_of_getElem? hpart) (Text.mem_of_mem_trim hc)
  refine ⟨?_, fun hc => hcomma (hmem _ hc).1, fun hc => (hmem _ hc).2 rfl⟩
  rw [← htrim] at hne ⊢
  exact Text.exists_trim_eq_cons hne

theorem isSegment_of_slot {expression : List Char} {slot : Register × String}
    (h : Expression.slot expression = .ok slot) : IsSegment slot.2.toList := by
  simp only [Expression.slot, bind_eq_ok_iff] at h
  obtain ⟨found, hfound, h⟩ := h
  split at h
  · cases h
    simpa using isSegment_of_mem_segments hfound List.mem_cons_self
  · cases h

end Expression

/-! ## Declarations -/

theorem PendingItem.kept_isSegment (dimension : String) (known : List Dimension) :
    Kept dimension known fun item =>
      ∀ slot, item.slot = some slot → Expression.IsSegment slot.2.toList where
  list := fun _ _ slot hslot => by cases hslot
  inherit := fun _ _ hitem => hitem
  assign := by
    intro key name slot hslot item result _ hassign
    unfold PendingItem.assign at hassign
    split at hassign
    · cases hassign
    · cases hassign
      intro other hother
      cases hother
      exact Expression.isSegment_of_slot hslot

structure Dimension.Named (d : Dimension) : Prop where
  name_ne_nil : d.name.toList ≠ []
  isSegment : ∀ item ∈ d.items, Expression.IsSegment item.domain.toList

theorem Dimension.Within.named {left d : Dimension} (h : left.Within d) (hd : d.Named) :
    left.Named where
  name_ne_nil := h.name_eq ▸ hd.name_ne_nil
  isSegment := by
    intro item hitem
    obtain ⟨source, hsource, -, hdomain, -⟩ := h.exists_item item hitem
    rw [hdomain]
    exact hd.isSegment source hsource

namespace Config

theorem named_of_addEntry {declarations result : Declarations} {entry : String × Value}
    (h : ∀ d ∈ declarations.dimensions, d.Named)
    (hadd : declarations.addEntry entry = .ok result) : ∀ d ∈ result.dimensions, d.Named := by
  unfold Declarations.addEntry at hadd
  split at hadd
  · cases hadd
    exact h
  · obtain ⟨brackets, entries, items, hname, -, -, -, -, hitems, rfl⟩ :=
      Declarations.declare_eq_ok hadd
    intro d hd
    rcases List.mem_cons.mp ((perm_insertByWidth _ _).mem_iff.mp hd) with rfl | hd
    · refine ⟨?_, fun item hitem => ?_⟩
      · simpa [Dimension.ofItems] using hname
      · obtain ⟨source, hsource, hslot, -⟩ :=
          exists_of_mem_readItems (PendingItem.kept_isSegment _ _) hitems hitem
        exact hsource _ hslot
    · exact h d hd

theorem Reachable.named {config : Config} (h : config.Reachable) :
    ∀ d ∈ config.dimensions, d.Named := by
  apply h.induction_on_filters
  · intro mode document config hparse
    obtain ⟨root, declarations, hread, hdimensions, -⟩ := exists_declarations_of_parse hparse
    rw [hdimensions]
    exact foldlM_preserves
      (P := fun declarations => ∀ d ∈ declarations.dimensions, d.Named)
      (fun _ _ _ _ hprevious hstep => named_of_addEntry hprevious hstep) (by simp) hread
  · intro config hreachable ih conditions
    obtain ⟨left, hwithin, hfiltered⟩ := exists_within hreachable.wellDeclared conditions
    rw [hfiltered]
    exact List.forall_mem_map.mpr fun d hd => (hwithin d).named (ih d hd)

end Config

end Variants
