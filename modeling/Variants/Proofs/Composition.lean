import Variants.Proofs.Locality
import Variants.Proofs.Passes
import Variants.Proofs.Resolution

/-!
# Filters compose

Two filters one after the other leave what both leave at once, in either order,
provided that the second one means the same before the first and after it.  A
bare value can mean another domain by then, and a value of a domain that is gone
nothing at all.  A `domain.value` stays what it is, and the name of a domain that
is still there stands for the values that matter.
-/

namespace Variants

/-! ## Names that keep their meaning -/

/-- Every segment of the filter is a `domain.value` or a domain that its dimension has. -/
def Expression.namesDomains (dimensions : List Dimension) (filter : String) : Bool :=
  (splitFilter? filter).all fun (name, expression) =>
    (segments expression).toOption.all fun found =>
      dimensions.all fun d => d.name != name || found.all fun (register, segment) =>
        segment.contains '.' || d.hasDomain register (String.ofList segment)

structure Condition.AgreesOn (dimensions : List Dimension) (a b : Condition) : Prop where
  dimension_eq : a.dimension = b.dimension
  register_eq : a.register = b.register
  allows_eq : ∀ d ∈ dimensions, d.name = b.dimension → ∀ domain,
    ∀ value ∈ d.values b.register domain, a.allows domain value = b.allows domain value

theorem Dimension.Within.exists_resolvesTo {left d : Dimension} (h : left.Within d)
    {segment : Register × List Char} {c : Condition} (hc : left.ResolvesTo segment c)
    (hname : '.' ∈ segment.2 ∨ left.hasDomain segment.1 (String.ofList segment.2) = true) :
    ∃ wider, d.ResolvesTo segment wider ∧ wider.dimension = c.dimension ∧
      wider.register = c.register ∧ ∀ domain, ∀ value ∈ left.values c.register domain,
        wider.allows domain value = c.allows domain value := by
  obtain ⟨hdimension, hregister, hhas, hresolve⟩ := hc
  have hhas : d.hasRegister segment.1 = true :=
    d.hasRegister_iff.mpr (h.registers_subset (left.hasRegister_iff.mp hhas))
  have hwider : ∀ domains : Domains, d.resolve? segment.1 segment.2 = some domains →
      d.ResolvesTo segment ⟨d.name, segment.1, domains⟩ :=
    fun domains hdomains => ⟨rfl, rfl, hhas, hdomains⟩
  have hdimension := h.name_eq.symm.trans hdimension.symm
  cases hsplit : Text.splitOnce '.' segment.2 with
  | some parts =>
      obtain ⟨before, after⟩ := parts
      rw [left.resolve?_of_splitOnce hsplit, Option.ite_none_right_eq_some, left.hasValue_iff,
        Option.some.injEq] at hresolve
      obtain ⟨hvalue, hdomains⟩ := hresolve
      have hvalue := d.hasValue_iff.mpr (h.values_subset _ _ hvalue)
      have hwhole : d.resolve? segment.1 segment.2 = some c.domains := by
        rw [d.resolve?_of_splitOnce hsplit, if_pos hvalue, hdomains]
      exact ⟨_, hwider c.domains hwhole, hdimension, hregister.symm, fun _ _ _ => rfl⟩
  | none =>
      have hname := hname.resolve_left (Text.splitOnce_eq_none_iff.mp hsplit)
      rw [left.resolve?_of_hasDomain hsplit hname, Option.some.injEq] at hresolve
      refine ⟨_, hwider _ (d.resolve?_of_hasDomain hsplit (h.hasDomain hname)), hdimension,
        hregister.symm, fun domain value hvalue => ?_⟩
      rw [Condition.allows_of_single rfl, Condition.allows_of_single hresolve.symm]
      by_cases hdomain : String.ofList segment.2 = domain
      · subst hdomain
        rw [hregister] at hvalue
        simp [hvalue, h.values_subset _ _ hvalue]
      · simp [beq_eq_false_iff_ne.mpr hdomain]

theorem Item.restrictAll?_of_agreesOn {dimensions : List Dimension}
    {filters others : List Condition}
    (h : List.Forall₂ (Condition.AgreesOn dimensions) filters others) {d : Dimension}
    (hd : d ∈ dimensions) {item : Item} (hitem : item ∈ d.items) :
    item.restrictAll? (filters.filter fun c => c.dimension = d.name) =
      item.restrictAll? (others.filter fun c => c.dimension = d.name) := by
  have hany := map_eq_of_forall₂ (f := fun a => decide (a.dimension = d.name) &&
    a.register == item.register) (g := fun b => decide (b.dimension = d.name) &&
    b.register == item.register) h fun a b hab => by rw [hab.dimension_eq, hab.register_eq]
  have hall : ∀ value ∈ item.values,
      filters.map (fun a => !decide (a.dimension = d.name) ||
        (a.register != item.register || a.allows item.domain value)) =
      others.map (fun b => !decide (b.dimension = d.name) ||
        (b.register != item.register || b.allows item.domain value)) := by
    intro value hvalue
    refine map_eq_of_forall₂ h fun a b hab => ?_
    rw [hab.dimension_eq, hab.register_eq]
    by_cases hat : b.dimension = d.name ∧ b.register = item.register
    · have hmem : value ∈ d.values b.register item.domain :=
        d.mem_values.mpr ⟨item, hitem, hat.2.symm, rfl, hvalue⟩
      rw [hab.allows_eq d hd hat.1.symm item.domain value hmem]
    · rcases not_and_or.mp hat with hname | hregister
      · simp [hname]
      · simp [bne_iff_ne.mpr hregister]
  apply restrictAll?_congr
  · simpa [List.any_filter, List.any_map, Function.comp_def] using congrArg (List.any · id) hany
  · intro value hvalue
    simpa [allows, List.all_filter, List.all_map, Function.comp_def] using
      congrArg (List.all · id) (hall value hvalue)

namespace Config

variable {config : Config}

theorem applyFilters_of_agreesOn (h : WellDeclared config.dimensions config.declared)
    {filters others : List Condition}
    (hagree : List.Forall₂ (Condition.AgreesOn config.dimensions) filters others) :
    config.applyFilters filters = config.applyFilters others := by
  apply applyFilters_congr h
  · cases hagree <;> simp
  · exact fun d hd item hitem => Item.restrictAll?_of_agreesOn hagree hd hitem

theorem exists_filterConditions (h : WellDeclared config.dimensions config.declared)
    (filters : List Condition) {filter : String} {conditions : List Condition}
    (hconditions : Expression.filterConditions (config.applyFilters filters).dimensions filter =
      .ok conditions)
    (hnames : Expression.namesDomains (config.applyFilters filters).dimensions filter = true) :
    ∃ wider, Expression.filterConditions config.dimensions filter = .ok wider ∧
      List.Forall₂ (Condition.AgreesOn (config.applyFilters filters).dimensions) wider
        conditions := by
  have hleft := wellDeclared_applyFilters h filters
  obtain ⟨left, hwithin, hfiltered⟩ := exists_within h filters
  rw [Expression.filterConditions_eq_ok_iff hleft.nodup_names] at hconditions
  obtain ⟨part, hpart, expression, hsplit, hconditions⟩ := hconditions
  have hmem := hpart
  rw [hfiltered] at hmem
  obtain ⟨d, hd, rfl⟩ := List.mem_map.mp hmem
  obtain ⟨found, hfound, hresolved⟩ := Expression.conditions_eq_ok_iff.mp hconditions
  have hnames : ∀ segment ∈ found, '.' ∈ segment.2 ∨
      (left d).hasDomain segment.1 (String.ofList segment.2) = true := by
    simp only [Expression.namesDomains, hsplit, hfound, Option.all_some, Except.toOption,
      List.all_eq_true] at hnames
    simpa using hnames (left d) hpart
  obtain ⟨wider, hwider, hagree⟩ := exists_forall₂ (r := Condition.AgreesOn
    (config.applyFilters filters).dimensions) hresolved fun segment hsegment c hc => by
      obtain ⟨wider, hwider, hdimension, hregister, hallows⟩ :=
        (hwithin d).exists_resolvesTo hc (hnames segment hsegment)
      refine ⟨wider, hwider, hdimension, hregister, fun other hother hname => ?_⟩
      rw [hleft.eq_of_name_eq hother hpart (hname.trans hc.dimension_eq)]
      exact hallows
  refine ⟨wider, (Expression.filterConditions_eq_ok_iff h.nodup_names).mpr
    ⟨d, hd, expression, ?_, Expression.conditions_eq_ok_iff.mpr ⟨found, hfound, hwider⟩⟩, hagree⟩
  rw [hsplit, (hwithin d).name_eq]

theorem exists_filtersConditions (h : WellDeclared config.dimensions config.declared)
    (filters : List Condition) {more : List String} {conditions : List Condition}
    (hconditions : Expression.filtersConditions (config.applyFilters filters).dimensions more =
      .ok conditions)
    (hnames : ∀ filter ∈ more,
      Expression.namesDomains (config.applyFilters filters).dimensions filter = true) :
    ∃ wider, Expression.filtersConditions config.dimensions more = .ok wider ∧
      List.Forall₂ (Condition.AgreesOn (config.applyFilters filters).dimensions) wider
        conditions := by
  obtain ⟨lists, hlists, rfl⟩ := map_eq_ok_iff.mp hconditions
  obtain ⟨others, hothers, hagree⟩ := exists_forall₂ (mapM_eq_ok_iff.mp hlists)
    fun filter hfilter list hlist =>
      exists_filterConditions h filters hlist (hnames filter hfilter)
  exact ⟨others.flatten, map_eq_ok_iff.mpr ⟨others, mapM_eq_ok_iff.mpr hothers, rfl⟩,
    List.rel_flatten hagree⟩

theorem exists_applyFilters_twice (h : WellDeclared config.dimensions config.declared)
    (filters : List Condition) {more : List String} {conditions : List Condition}
    (hconditions : Expression.filtersConditions (config.applyFilters filters).dimensions more =
      .ok conditions)
    (hnames : ∀ filter ∈ more,
      Expression.namesDomains (config.applyFilters filters).dimensions filter = true) :
    ∃ wider, Expression.filtersConditions config.dimensions more = .ok wider ∧
      (config.applyFilters filters).applyFilters conditions =
        config.applyFilters (filters ++ wider) := by
  obtain ⟨wider, hwider, hagree⟩ := exists_filtersConditions h filters hconditions hnames
  refine ⟨wider, hwider, ?_⟩
  rw [← applyFilters_of_agreesOn (wellDeclared_applyFilters h filters) hagree,
    applyFilters_applyFilters h]

/--
A filter after another leaves what both leave at once, in either order, if its
segments are `domain.value`s or domains that the first filter has left.  A filter
of this form changes nothing when it is repeated.
-/
theorem filter_compose {first : Config} {filters : List String} (h : config.Reachable)
    (hfirst : config.filter filters = .ok first) :
    (∀ more second, first.filter more = .ok second →
      (∀ filter ∈ more, Expression.namesDomains first.dimensions filter = true) →
        config.filter (filters ++ more) = .ok second ∧
          config.filter (more ++ filters) = .ok second) ∧
    ((∀ filter ∈ filters, Expression.namesDomains first.dimensions filter = true) →
      first.afterFilter filters = first) := by
  have hwell := h.wellDeclared
  obtain ⟨conditions, hconditions, rfl⟩ := filter_eq_ok_iff.mp hfirst
  constructor
  · intro more second hsecond hnames
    obtain ⟨narrow, hnarrow, rfl⟩ := filter_eq_ok_iff.mp hsecond
    obtain ⟨wider, hwider, htwice⟩ := exists_applyFilters_twice hwell conditions hnarrow hnames
    rw [htwice]
    constructor
    · exact filter_eq_ok_iff.mpr
        ⟨_, Expression.filtersConditions_append hconditions hwider, rfl⟩
    · rw [applyFilters_append_comm hwell]
      exact filter_eq_ok_iff.mpr
        ⟨_, Expression.filtersConditions_append hwider hconditions, rfl⟩
  · intro hnames
    unfold afterFilter
    cases hagain : (config.applyFilters conditions).filter filters with
    | error error => rfl
    | ok again =>
        obtain ⟨narrow, hnarrow, rfl⟩ := filter_eq_ok_iff.mp hagain
        obtain ⟨wider, hwider, htwice⟩ := exists_applyFilters_twice hwell conditions hnarrow hnames
        cases hconditions.symm.trans hwider
        exact htwice.trans (applyFilters_append_self hwell conditions)

theorem filter_compose_zonedRacks :
    ∃ config first second : Config, config.Reachable ∧
      config.filter ["stage=prod"] = .ok first ∧
      first.filter ["region=us.nyc", "stage=prod"] = .ok second ∧
      config.filter ["stage=prod", "region=us.nyc", "stage=prod"] = .ok second ∧
      config.filter ["region=us.nyc", "stage=prod", "stage=prod"] = .ok second ∧
      first.afterFilter ["stage=prod"] = first := by
  have hparse : (parse .firstKey zonedRacks).toOption.any (fun config =>
      (config.filter ["stage=prod"]).toOption.any fun first =>
        (first.filter ["region=us.nyc", "stage=prod"]).toOption.any fun _ =>
          ["region=us.nyc", "stage=prod"].all
            (Expression.namesDomains first.dimensions)) = true := by
    decide +kernel
  obtain ⟨config, hconfig, hany⟩ := any_toOption_iff.mp hparse
  obtain ⟨first, hfirst, hany⟩ := any_toOption_iff.mp hany
  obtain ⟨second, hsecond, hnames⟩ := any_toOption_iff.mp hany
  have hreachable : config.Reachable := .parsed hconfig
  rw [List.all_eq_true] at hnames
  obtain ⟨htwice, hagain⟩ := filter_compose hreachable hfirst
  obtain ⟨htogether, hswapped⟩ := htwice _ second hsecond hnames
  exact ⟨config, first, second, hreachable, hfirst, hsecond, htogether, hswapped,
    hagain fun filter hfilter => hnames filter (List.mem_cons_of_mem _ hfilter)⟩

end Config

end Variants
