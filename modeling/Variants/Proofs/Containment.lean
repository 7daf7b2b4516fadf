import Variants.Proofs.Generation
import Variants.Proofs.Rendering

/-!
# Modes of containment

The modes differ on predicates with several keys at one level.  No key of a
document ever states such a condition and no filter makes one, neither for items
nor in the property tree, so a configuration does the same in either mode.
-/

namespace Variants

theorem Condition.Grounded.holdsIn_mode {known : List Dimension} {c : Condition}
    (h : c.Grounded known) (mode other : Containment) (tuple : Tuple) :
    c.holdsIn mode tuple.toContext = c.holdsIn other tuple.toContext := by
  obtain ⟨d, -, -, domain, values, hdomains, -⟩ := h
  rw [holdsIn_toContext_of_single hdomains, holdsIn_toContext_of_single hdomains]

namespace Config

def withMode (mode : Containment) (config : Config) : Config :=
  { config with containment := mode }

def GroundedTree (config : Config) : Prop :=
  ∃ known, ∀ node ∈ config.tree.nodes, node.Grounded known

theorem Reachable.groundedTree {config : Config} (h : config.Reachable) :
    config.GroundedTree := by
  apply h.induction_on_filters
  · intro mode document config hparse
    obtain ⟨parsed, hparsed, rfl⟩ := map_eq_ok_iff.mp hparse
    exact ⟨parsed.dimensions, Document.grounded_parse hparsed⟩
  · intro config _ ih conditions
    cases conditions <;> exact ih

/-! ## Calls in either mode -/

theorem parse_mode (mode other : Containment) (document : Value) :
    parse other document = (parse mode document).map (withMode other) := by
  unfold parse
  cases Document.parse document <;> rfl

theorem applyFilters_withMode (mode : Containment) (config : Config)
    (conditions : List Condition) :
    (config.withMode mode).applyFilters conditions =
      (config.applyFilters conditions).withMode mode := by
  cases conditions <;> rfl

theorem filter_withMode (mode : Containment) (config : Config) (filters : List String) :
    (config.withMode mode).filter filters = (config.filter filters).map (withMode mode) := by
  have hdimensions : (config.withMode mode).dimensions = config.dimensions := rfl
  unfold filter
  rw [hdimensions]
  cases Expression.filtersConditions config.dimensions filters with
  | error error => rfl
  | ok conditions => exact congrArg Except.ok (applyFilters_withMode mode config conditions)

theorem afterFilter_withMode (mode : Containment) (config : Config) (filters : List String) :
    (config.withMode mode).afterFilter filters = (config.afterFilter filters).withMode mode := by
  unfold afterFilter
  rw [filter_withMode]
  cases config.filter filters <;> rfl

theorem foldl_afterFilter_withMode (mode : Containment) (config : Config)
    (calls : List (List String)) :
    calls.foldl afterFilter (config.withMode mode) =
      (calls.foldl afterFilter config).withMode mode := by
  induction calls generalizing config with
  | nil => rfl
  | cons filters calls ih => rw [List.foldl_cons, afterFilter_withMode, ih, List.foldl_cons]

theorem Reachable.foldl_afterFilter {config : Config} (h : config.Reachable)
    (calls : List (List String)) : (calls.foldl afterFilter config).Reachable := by
  induction calls generalizing config with
  | nil => exact h
  | cons filters calls ih => exact ih (.filtered filters h)

/-! ## Results in either mode -/

theorem extend_mode {order : List Dimension}
    (h : ∀ d ∈ order, ∀ item ∈ d.items, ∀ c ∈ item.conditions, ∃ known, c.Grounded known)
    (mode other : Containment) (start : Tuple) :
    extend mode order start = extend other order start := by
  induction order generalizing start with
  | nil => rfl
  | cons d rest ih =>
      have hfragments : d.fragments mode start.toContext = d.fragments other start.toContext := by
        refine Dimension.fragments_congr fun item hitem =>
          allHold_congr (Tuple.same_refl start) fun c hc tuple => ?_
        obtain ⟨known, hgrounded⟩ := h d List.mem_cons_self item hitem c hc
        exact hgrounded.holdsIn_mode mode other tuple
      have hrest := ih fun other hother => h other (List.mem_cons_of_mem _ hother)
      simp only [extend, hfragments, hrest]

theorem Reachable.generate_withMode {config : Config} (h : config.Reachable)
    (mode : Containment) : (config.withMode mode).generate = config.generate := by
  refine extend_mode (fun d hd item hitem c hc => ?_) mode config.containment OrderedMap.empty
  have hmem := (generationOrder_spec h.wellDeclared).1.mem_iff.mp hd
  exact ⟨config.dimensions, h.wellDeclared.grounded d hmem item hitem c hc⟩

theorem Reachable.render_withMode {config : Config} (h : config.Reachable) (mode : Containment)
    (tuple : Tuple) : (config.withMode mode).render tuple = config.render tuple := by
  obtain ⟨known, htree⟩ := h.groundedTree
  refine render_congr ⟨?_, rfl, fun node hnode c hc tuple => ?_⟩ (Tuple.same_refl tuple)
  · exact List.forall₂_same.mpr fun d _ => ⟨rfl, rfl, fun _ => rfl⟩
  · exact (htree node hnode c hc).holdsIn_mode mode config.containment tuple

/--
A document is rejected in both modes, with one error, or accepted in both.  Then
after any calls of the filter both configurations have the same dimensions,
answer the next call alike, generate the same tuples and render all tuples alike.
-/
theorem containment_indistinguishable (document : Value) :
    (∃ error, parse .firstKey document = .error error ∧
      parse .allKeys document = .error error) ∨
    ∃ first all, parse .firstKey document = .ok first ∧ parse .allKeys document = .ok all ∧
      ∀ calls : List (List String),
        (calls.foldl afterFilter first).dimensions = (calls.foldl afterFilter all).dimensions ∧
        (∀ filters,
          ((calls.foldl afterFilter first).filter filters).map (·.dimensions) =
            ((calls.foldl afterFilter all).filter filters).map (·.dimensions)) ∧
        (calls.foldl afterFilter first).generate = (calls.foldl afterFilter all).generate ∧
        ∀ tuple, (calls.foldl afterFilter first).render tuple =
          (calls.foldl afterFilter all).render tuple := by
  have hmode := parse_mode .firstKey .allKeys document
  cases hparse : parse .firstKey document with
  | error error =>
      rw [hparse] at hmode
      exact .inl ⟨error, rfl, hmode⟩
  | ok first =>
      rw [hparse] at hmode
      refine .inr ⟨first, first.withMode .allKeys, rfl, hmode, fun calls => ?_⟩
      have hreachable := (Reachable.parsed hparse).foldl_afterFilter calls
      rw [foldl_afterFilter_withMode]
      refine ⟨rfl, fun filters => ?_, (hreachable.generate_withMode .allKeys).symm, fun tuple =>
        (hreachable.render_withMode .allKeys tuple).symm⟩
      rw [filter_withMode]
      cases (calls.foldl afterFilter first).filter filters <;> rfl

end Config

end Variants
