import Variants.Proofs.Passes

/-!
# Filtering only takes away

Whatever the filters are and whatever the table of dependencies holds, the items
that a filtered dimension has are some of those it had, in their order, each with
some of its values.  A condition is rewritten to a list from the table, but only
with domains and values that it listed before, and never to one that nothing
satisfies.
-/

namespace Variants

theorem exists_sublist_of_filterMap {α β : Type} (f : α → Option β) (xs : List α) :
    ∃ kept, kept.Sublist xs ∧ List.Forall₂ (fun x y => f x = some y) kept (xs.filterMap f) := by
  induction xs with
  | nil => exact ⟨[], List.Sublist.refl _, .nil⟩
  | cons x xs ih =>
      obtain ⟨kept, hsublist, hkept⟩ := ih
      cases hx : f x with
      | none =>
          rw [List.filterMap_cons_none hx]
          exact ⟨kept, hsublist.cons x, hkept⟩
      | some y =>
          rw [List.filterMap_cons_some hx]
          exact ⟨x :: kept, hsublist.cons_cons x, .cons hx hkept⟩

/-! ## Conditions -/

namespace Condition

structure ShrinksTo (before after : Condition) : Prop where
  dimension_eq : after.dimension = before.dimension
  register_eq : after.register = before.register
  subset : ∀ domain values, after.domains.get? domain = some values →
    ∃ listed, before.domains.get? domain = some listed ∧ values ⊆ listed

structure Satisfiable (condition : Condition) : Prop where
  exists_domain : ∃ domain values, condition.domains.get? domain = some values
  ne_nil : ∀ domain values, condition.domains.get? domain = some values → values ≠ []

theorem exists_get?_of_intersect {current listed : Domains} {domain : String}
    {values : List String}
    (h : (Domains.intersect current listed).get? domain = some values) :
    values ≠ [] ∧ ∃ others, listed.get? domain = some others ∧ values ⊆ others := by
  rw [Domains.get?_intersect] at h
  obtain ⟨own, -, h⟩ := Option.bind_eq_some_iff.mp h
  obtain ⟨others, hothers, hshared⟩ := Option.bind_eq_some_iff.mp h
  obtain ⟨rfl, hne⟩ := Domains.shared?_eq_some_iff.mp hshared
  refine ⟨hne, others, hothers, fun value hvalue => ?_⟩
  simpa using (List.mem_filter.mp hvalue).2

theorem exists_get?_of_not_isEmpty {domains : Domains} (h : domains.isEmpty = false) :
    ∃ domain values, domains.get? domain = some values := by
  obtain ⟨⟨domain, values⟩, hmem⟩ := List.exists_mem_of_ne_nil domains.entries
    (fun hnil => by simp [OrderedMap.isEmpty, hnil] at h)
  exact ⟨domain, values, OrderedMap.get?_eq_some_iff.mpr hmem⟩

theorem shrinksTo_of_narrow? {available : OrderedMap String MergedValues}
    {condition narrowed : Condition} (h : condition.narrow? available = some narrowed) :
    condition.ShrinksTo narrowed ∧ narrowed.Satisfiable := by
  unfold narrow? at h
  split at h
  · cases h
  · next current _ =>
      simp only at h
      split at h
      · cases h
      · next hempty =>
          cases h
          refine ⟨⟨rfl, rfl, fun domain values hget => (exists_get?_of_intersect hget).2⟩, ?_,
            fun domain values hget => (exists_get?_of_intersect hget).1⟩
          exact exists_get?_of_not_isEmpty (Bool.eq_false_iff.mpr hempty)

end Condition

/-! ## Items -/

namespace Item

/-- The item offers some of its values in the same place, under conditions that have shrunk. -/
structure ShrinksTo (before after : Item) : Prop where
  register_eq : after.register = before.register
  domain_eq : after.domain = before.domain
  values : after.values.Sublist before.values
  conditions : List.Forall₂ Condition.ShrinksTo before.conditions after.conditions

theorem sublist_of_keptValues {filters : List Condition} {register : Register} {domain : String}
    {values kept : List String} (h : keptValues filters register domain values = some kept) :
    kept.Sublist values ∧ ∀ filter ∈ filters, filter.register = register →
      kept ≠ [] ∧ ∀ value ∈ kept, filter.allows domain value = true := by
  by_cases hany : filters.any (·.register == register) = true
  · rw [keptValues_of_any hany] at h
    simp only [someValues, Option.ite_none_left_eq_some, Option.some.injEq] at h
    obtain ⟨hne, rfl⟩ := h
    refine ⟨List.filter_sublist, fun filter hfilter hregister => ⟨hne, fun value hvalue => ?_⟩⟩
    have hallows := List.all_eq_true.mp (List.mem_filter.mp hvalue).2 filter hfilter
    simpa [hregister] using hallows
  · rw [(keptValues_of_not_any (Bool.eq_false_iff.mpr hany) domain).1] at h
    cases h
    refine ⟨List.Sublist.refl _, fun filter hfilter hregister => absurd ?_ hany⟩
    exact List.any_eq_true.mpr ⟨filter, hfilter, beq_iff_eq.mpr hregister⟩

theorem shrinksTo_of_filtered {filters : List Condition}
    {available : OrderedMap String MergedValues} {item result : Item}
    (h : (item.restrictAll? filters).bind (narrow? available) = some result) :
    item.ShrinksTo result ∧
    (∀ filter ∈ filters, filter.register = result.register →
      result.values ≠ [] ∧ ∀ value ∈ result.values, filter.allows result.domain value = true) ∧
    ∀ condition ∈ result.conditions, condition.Satisfiable := by
  obtain ⟨restricted, hrestricted, hnarrow⟩ := Option.bind_eq_some_iff.mp h
  rw [restrictAll?_eq] at hrestricted
  obtain ⟨values, hvalues, rfl⟩ := Option.map_eq_some_iff.mp hrestricted
  obtain ⟨conditions, rfl, hconditions⟩ := narrow?_eq_some_iff.mp hnarrow
  obtain ⟨hsublist, hallowed⟩ := sublist_of_keptValues hvalues
  refine ⟨⟨rfl, rfl, hsublist, hconditions.imp fun _ _ hstep =>
    (Condition.shrinksTo_of_narrow? hstep).1⟩, hallowed, fun condition hcondition => ?_⟩
  obtain ⟨source, -, hstep⟩ := exists_mem_of_forall₂ hconditions hcondition
  exact (Condition.shrinksTo_of_narrow? hstep).2

end Item

/-! ## Dimensions -/

/--
A filtered dimension keeps a part of its items, in their order, and each of these
shrinks.  Where a filter is on the register of an item, a value is left, and every
filter there allows all that are left.  No condition is left without a value.
-/
theorem Dimension.filter_shrinks (filters : List Condition)
    (available : OrderedMap String MergedValues) (d : Dimension) :
    (∃ kept, kept.Sublist d.items ∧
      List.Forall₂ Item.ShrinksTo kept (d.filter filters available).items) ∧
    ∀ item ∈ (d.filter filters available).items,
      (∀ filter ∈ filters, filter.dimension = d.name → filter.register = item.register →
        item.values ≠ [] ∧ ∀ value ∈ item.values, ∃ allowed,
          filter.domains.get? item.domain = some allowed ∧ value ∈ allowed) ∧
      ∀ condition ∈ item.conditions, condition.Satisfiable := by
  rw [filter_eq]
  refine ⟨?_, fun item hitem => ?_⟩
  · obtain ⟨kept, hsublist, hkept⟩ := exists_sublist_of_filterMap
      (fun item => (item.restrictAll? (filters.filter fun filter => filter.dimension = d.name)).bind
        (Item.narrow? available)) d.items
    exact ⟨kept, hsublist, hkept.imp fun _ _ hstep => (Item.shrinksTo_of_filtered hstep).1⟩
  · obtain ⟨source, -, hstep⟩ := List.mem_filterMap.mp hitem
    obtain ⟨-, hallowed, hconditions⟩ := Item.shrinksTo_of_filtered hstep
    refine ⟨fun filter hfilter hname hregister => ?_, hconditions⟩
    obtain ⟨hne, hvalues⟩ := hallowed filter
      (List.mem_filter.mpr ⟨hfilter, by simpa using hname⟩) hregister
    refine ⟨hne, fun value hvalue => ?_⟩
    have hallows := hvalues value hvalue
    simp only [Condition.allows, Option.any_eq_true, List.contains_iff_mem] at hallows
    exact hallows

end Variants
