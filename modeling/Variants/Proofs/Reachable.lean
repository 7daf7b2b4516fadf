import Variants.Proofs.Narrowing

/-!
# Reachable configurations

A configuration starts from an accepted document and goes through any number of
calls of the filter, accepted or not.  In every state that comes up on the way
the dimensions are well declared; in particular no condition is about a
register, domain or value that its dimension does not have any more.
-/

namespace Variants

namespace Config

def afterFilter (config : Config) (filters : List String) : Config :=
  match config.filter filters with
  | .ok filtered => filtered
  | .error _ => config

inductive Reachable : Config → Prop where
  | parsed {mode : Containment} {document : Value} {config : Config}
      (h : parse mode document = .ok config) : Reachable config
  | filtered {config : Config} (filters : List String) (h : Reachable config) :
      Reachable (config.afterFilter filters)

theorem filter_eq_ok_iff {config filtered : Config} {filters : List String} :
    config.filter filters = .ok filtered ↔
      ∃ conditions, Expression.filtersConditions config.dimensions filters = .ok conditions ∧
        config.applyFilters conditions = filtered := by
  simp only [filter, bind_eq_ok_iff, pure, Except.pure, Except.ok.injEq]

theorem Reachable.of_filter {config filtered : Config} {filters : List String}
    (h : config.Reachable) (hfilter : config.filter filters = .ok filtered) :
    filtered.Reachable := by
  have hafter : config.afterFilter filters = filtered := by
    rw [afterFilter, hfilter]
  rw [← hafter]
  exact .filtered filters h

theorem Reachable.induction_on_filters {P : Config → Prop}
    (parsed : ∀ {mode document config}, parse mode document = .ok config → P config)
    (applied : ∀ {config}, config.Reachable → P config →
      ∀ conditions, P (config.applyFilters conditions))
    {config : Config} (h : config.Reachable) : P config := by
  induction h with
  | parsed h => exact parsed h
  | @filtered config filters hreachable ih =>
      unfold afterFilter
      cases hfilter : config.filter filters with
      | error error => exact ih
      | ok filtered =>
          obtain ⟨conditions, -, rfl⟩ := filter_eq_ok_iff.mp hfilter
          exact applied hreachable ih conditions

theorem parse_eq_ok_iff {mode : Containment} {document : Value} {config : Config} :
    parse mode document = .ok config ↔
      ∃ root declarations tree, document = .object root ∧
        Declarations.read root = .ok declarations ∧
        Properties.tree declarations.dimensions root = .ok tree ∧
        config = ⟨declarations.dimensions, declarations.declared, tree, mode⟩ := by
  have hroot : document.entries? = none ∨ ∃ root, document = .object root := by
    cases document <;> simp [Value.entries?]
  rcases hroot with hnone | ⟨root, rfl⟩
  · simp only [parse, Document.parse, hnone, Except.map, reduceCtorEq, false_iff]
    rintro ⟨root, _, _, rfl, -⟩
    cases hnone
  · have hdocument : Document.parse (.object root) = (do
        let declarations ← Declarations.read root
        let tree ← Properties.tree declarations.dimensions root
        return ⟨declarations.dimensions, declarations.declared, tree⟩) := rfl
    simp only [parse, map_eq_ok_iff, hdocument, bind_eq_ok_iff, Value.object.injEq]
    constructor
    · rintro ⟨_, ⟨declarations, hread, tree, htree, heq⟩, rfl⟩
      cases heq
      exact ⟨root, declarations, tree, rfl, hread, htree, rfl⟩
    · rintro ⟨_, declarations, tree, rfl, hread, htree, rfl⟩
      exact ⟨_, ⟨declarations, hread, tree, htree, rfl⟩, rfl⟩

theorem exists_declarations_of_parse {mode : Containment} {document : Value} {config : Config}
    (h : parse mode document = .ok config) :
    ∃ root declarations, Declarations.read root = .ok declarations ∧
      config.dimensions = declarations.dimensions ∧
      config.declared = declarations.declared := by
  obtain ⟨root, declarations, tree, -, hread, -, rfl⟩ := parse_eq_ok_iff.mp h
  exact ⟨root, declarations, hread, rfl, rfl⟩

theorem Reachable.wellDeclared {config : Config} (h : config.Reachable) :
    WellDeclared config.dimensions config.declared := by
  apply h.induction_on_filters
  · intro mode document config hparse
    obtain ⟨root, declarations, hread, hdimensions, hdeclared⟩ :=
      exists_declarations_of_parse hparse
    rw [hdimensions, hdeclared]
    exact Declarations.wellDeclared_read hread
  · exact fun _ ih conditions => wellDeclared_applyFilters ih conditions

theorem Reachable.dimension?_eq {config : Config} (h : config.Reachable) {d : Dimension}
    (hd : d ∈ config.dimensions) : config.dimension? d.name = some d :=
  find?_name_of_mem h.wellDeclared.nodup_names hd

/-! ## Conditions in reachable configurations -/

/--
Every condition is about an earlier dimension that its own one depends on, about
a single domain, and about values listed there now, in the same order.
-/
theorem conditions_within_dependencies {config : Config} (h : config.Reachable) {d : Dimension}
    (hd : d ∈ config.dimensions) {item : Item} (hitem : item ∈ d.items) {c : Condition}
    (hc : c ∈ item.conditions) :
    c.dimension ∈ d.depends ∧ d.name ∈ config.declared ∧
      config.declared.idxOf c.dimension < config.declared.idxOf d.name ∧
      ∃ other, config.dimension? c.dimension = some other ∧
        other.hasRegister c.register = true ∧
        ∃ domain values, c.domains = .single domain values ∧
          other.hasDomain c.register domain = true ∧ values.Nodup ∧
          values.Sublist (other.values c.register domain) := by
  have hwell := h.wellDeclared
  have hdepends := hwell.mem_depends d hd item hitem c hc
  obtain ⟨other, hother, hname, domain, values, hdomains, hdomain, hvalues⟩ :=
    hwell.grounded d hd item hitem c hc
  have hregister : other.hasRegister c.register = true := by
    obtain ⟨offering, hoffering, hat, -⟩ := other.hasDomain_iff.mp hdomain
    exact other.hasRegister_iff.mpr (other.mem_registers.mpr ⟨offering, hoffering, hat⟩)
  refine ⟨hdepends, hwell.mem_declared_iff.mpr ⟨d, hd, rfl⟩,
    hwell.depends_earlier d hd c.dimension hdepends, other, ?_, hregister, domain, values,
    hdomains, hdomain, (other.nodup_values c.register domain).sublist hvalues, hvalues⟩
  rw [hname]
  exact h.dimension?_eq hother

/-! ### At a document -/

def stagedRegions : Value :=
  .object
    [("env/[[]]", .object
      [("dev", .array [.string "d1", .string "d2", .string "d3"]),
        ("prod", .array [.string "p1", .string "p2"])]),
      ("region/<>", .object
        [("us", .array [.string "nyc", .string "nyc"]),
          (":rack[[prod]]", .array [.string "r1"])]),
      ("host", .string "<:@>.<@>.[[@]]")]

theorem conditions_within_dependencies_stagedRegions :
    ∃ config : Config, config.Reachable ∧ ∃ d ∈ config.dimensions, ∃ item ∈ d.items,
      ∃ c ∈ item.conditions,
        d.name = "region" ∧ c.domains = .single "prod" ["p2"] ∧
        c.dimension ∈ d.depends ∧ d.name ∈ config.declared ∧
        config.declared.idxOf c.dimension < config.declared.idxOf d.name ∧
        ∃ other, config.dimension? c.dimension = some other ∧
          other.hasRegister c.register = true ∧
          ∃ domain values, c.domains = .single domain values ∧
            other.hasDomain c.register domain = true ∧ values.Nodup ∧
            values.Sublist (other.values c.register domain) := by
  have hparse : (parse .firstKey stagedRegions).toOption.any (fun config =>
      decide (∃ d ∈ (config.afterFilter ["env=p2"]).dimensions, ∃ item ∈ d.items,
        ∃ c ∈ item.conditions, d.name = "region" ∧ c.domains = .single "prod" ["p2"])) =
      true := by
    decide +kernel
  obtain ⟨config, hconfig, hdecide⟩ := any_toOption_iff.mp hparse
  obtain ⟨d, hd, item, hitem, c, hc, hname, hdomains⟩ := of_decide_eq_true hdecide
  have hreachable := Reachable.filtered ["env=p2"] (.parsed hconfig)
  exact ⟨_, hreachable, d, hd, item, hitem, c, hc, hname, hdomains,
    conditions_within_dependencies hreachable hd hitem hc⟩

end Config

end Variants
