import Variants.Proofs.Narrowing

/-!
# What filters resolve to

With one dimension for each name, a filter resolves on the dimension that it
names, segment by segment.  A list of filters that follows another resolves to
what both resolve to, one after the other.
-/

namespace Variants

structure Dimension.ResolvesTo (d : Dimension) (segment : Register × List Char)
    (c : Condition) : Prop where
  dimension_eq : c.dimension = d.name
  register_eq : c.register = segment.1
  hasRegister : d.hasRegister segment.1 = true
  domains_eq : d.resolve? segment.1 segment.2 = some c.domains

namespace Expression

variable {dimensions : List Dimension}

theorem conditions_eq_ok_iff {d : Dimension} {expression : List Char}
    {conditions : List Condition} :
    Expression.conditions d expression = .ok conditions ↔
      ∃ found, segments expression = .ok found ∧
        List.Forall₂ d.ResolvesTo found conditions := by
  have hsegment : ∀ (segment : Register × List Char) (c : Condition),
      (do
        let domains ← d.resolve segment.1 segment.2
        return (⟨d.name, segment.1, domains⟩ : Condition)) = .ok c ↔ d.ResolvesTo segment c := by
    intro segment c
    simp only [bind_eq_ok_iff, d.resolve_eq_ok_iff]
    constructor
    · rintro ⟨domains, ⟨hregister, hdomains⟩, heq⟩
      cases heq
      exact ⟨rfl, rfl, hregister, hdomains⟩
    · rintro ⟨hname, hregister, hhas, hdomains⟩
      refine ⟨c.domains, ⟨hhas, hdomains⟩, ?_⟩
      rw [← hname, ← hregister]
      rfl
  simp only [Expression.conditions, bind_eq_ok_iff, mapM_eq_ok_iff, hsegment]

theorem filterConditions_eq_ok_iff (hnodup : (dimensions.map (·.name)).Nodup) {filter : String}
    {conditions : List Condition} :
    filterConditions dimensions filter = .ok conditions ↔
      ∃ d ∈ dimensions, ∃ expression, splitFilter? filter = some (d.name, expression) ∧
        Expression.conditions d expression = .ok conditions := by
  have hnodup : (dimensions.reverse.map (·.name)).Nodup := by
    rw [List.map_reverse]
    exact List.nodup_reverse.mpr hnodup
  constructor
  · intro h
    unfold filterConditions at h
    split at h
    · cases h
    · next name expression hsplit =>
        split at h
        · cases h
        · next d hfind =>
            have hname : d.name = name := by simpa using List.find?_some hfind
            have hd := List.mem_reverse.mp (List.mem_of_find?_eq_some hfind)
            exact ⟨d, hd, expression, hname ▸ hsplit, mapError_eq_ok_iff.mp h⟩
  · rintro ⟨d, hd, expression, hsplit, hconditions⟩
    have hfind := find?_name_of_mem hnodup (List.mem_reverse.mpr hd)
    simp [filterConditions, hsplit, hfind, hconditions, Except.mapError]

theorem exists_of_mem_filtersConditions (hnodup : (dimensions.map (·.name)).Nodup)
    {filters : List String} {conditions : List Condition}
    (h : filtersConditions dimensions filters = .ok conditions) {c : Condition}
    (hc : c ∈ conditions) :
    ∃ d ∈ dimensions, c.dimension = d.name ∧ c.register ∈ d.registers := by
  obtain ⟨lists, hlists, rfl⟩ := map_eq_ok_iff.mp h
  obtain ⟨list, hlist, hmem⟩ := List.mem_flatten.mp hc
  obtain ⟨filter, -, hfilter⟩ := exists_mem_of_mapM hlists hlist
  obtain ⟨d, hd, expression, -, hconditions⟩ := (filterConditions_eq_ok_iff hnodup).mp hfilter
  obtain ⟨hfits, hregister⟩ := fits_of_conditions hconditions hmem
  exact ⟨d, hd, hfits.dimension_eq, d.hasRegister_iff.mp hregister⟩

theorem filtersConditions_append {filters more : List String} {first second : List Condition}
    (hfirst : filtersConditions dimensions filters = .ok first)
    (hsecond : filtersConditions dimensions more = .ok second) :
    filtersConditions dimensions (filters ++ more) = .ok (first ++ second) := by
  obtain ⟨lists, hlists, rfl⟩ := map_eq_ok_iff.mp hfirst
  obtain ⟨others, hothers, rfl⟩ := map_eq_ok_iff.mp hsecond
  refine map_eq_ok_iff.mpr ⟨lists ++ others, ?_, List.flatten_append⟩
  exact mapM_eq_ok_iff.mpr
    (List.rel_append (mapM_eq_ok_iff.mp hlists) (mapM_eq_ok_iff.mp hothers))

end Expression

end Variants
