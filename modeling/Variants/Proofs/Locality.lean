import Mathlib.Logic.Relation
import Variants.Proofs.Reachable

/-!
# Filtering is local

The pass of a filter writes to every condition of every dimension.  A condition
lists values in the order in which its dimension offers them, so narrowing to
an unchanged dimension writes back what was there.  A dimension therefore keeps
its items unless a filter names it, or a dimension that it depends on at some
remove.
-/

namespace Variants

theorem filter_contains_of_sublist {xs ys : List String} (h : xs.Sublist ys)
    (hnodup : ys.Nodup) : ys.filter xs.contains = xs := by
  induction h with
  | slnil => rfl
  | @cons xs ys y hsub ih =>
      obtain ⟨hy, hrest⟩ := List.nodup_cons.mp hnodup
      have hnot : y ∉ xs := fun hmem => hy (hsub.subset hmem)
      simp [hnot, ih hrest]
  | @cons_cons xs ys y hsub ih =>
      obtain ⟨hy, hrest⟩ := List.nodup_cons.mp hnodup
      have hother : ys.filter (y :: xs).contains = ys.filter xs.contains :=
        List.filter_congr fun value hvalue => by
          have hne : value ≠ y := fun heq => hy (heq ▸ hvalue)
          simp [hne]
      rw [List.filter_cons_of_pos (by simp), hother, ih hrest]

namespace Config

/-- A declaration of the first name states conditions on the second. -/
def DependsOn (dimensions : List Dimension) (name other : String) : Prop :=
  ∃ d ∈ dimensions, d.name = name ∧ other ∈ d.depends

variable {dimensions : List Dimension} {declared : List String} {conditions : List Condition}

theorem narrow?_eq_self (h : WellDeclared dimensions declared) {d : Dimension}
    (hd : d ∈ dimensions) {item : Item} (hitem : item ∈ d.items) {c : Condition}
    (hc : c ∈ item.conditions)
    (hvalues : ∀ domain values, c.domains.get? domain = some values → values ≠ [])
    (hsame : ∀ other ∈ dimensions, other.name ∈ d.depends →
      settled declared conditions dimensions other = other) :
    c.narrow? (available (settle declared conditions dimensions) d) = some c := by
  have hdepends := h.mem_depends d hd item hitem c hc
  obtain ⟨other, hother, hname, domain, values, hdomains, -, hsub⟩ :=
    h.grounded d hd item hitem c hc
  have hne : values ≠ [] := hvalues domain values (by simp [hdomains])
  have hshared : Domains.shared? values (other.values c.register domain) = some values :=
    Domains.shared?_eq_some_iff.mpr
      ⟨filter_contains_of_sublist hsub (other.nodup_values c.register domain), hne⟩
  rw [narrow?_settle_of_single h conditions hother hname hdepends hdomains,
    hsame other hother (hname ▸ hdepends), hshared, Option.map_some, ← hdomains]

theorem settled_eq_self (h : WellDeclared dimensions declared)
    (hvalues : ∀ d ∈ dimensions, ∀ item ∈ d.items, ∀ c ∈ item.conditions,
      ∀ domain values, c.domains.get? domain = some values → values ≠ [])
    {d : Dimension} (hd : d ∈ dimensions)
    (hfree : ∀ c ∈ conditions,
      ¬Relation.ReflTransGen (DependsOn dimensions) d.name c.dimension) :
    settled declared conditions dimensions d = d := by
  revert hfree
  apply h.induction_on_depends ?_ hd
  intro d hd ih hfree
  -- What a dimension depends on reaches no more of the filters than it does itself.
  have hsame : ∀ other ∈ dimensions, other.name ∈ d.depends →
      settled declared conditions dimensions other = other :=
    fun other hother hdepends => ih other hother hdepends fun c hc hreach =>
      hfree c hc (hreach.head ⟨d, hd, rfl, hdepends⟩)
  have hunnamed : (conditions.filter fun c => c.dimension = d.name) = [] := by
    apply List.filter_eq_nil_iff.mpr
    intro c hc hname
    refine hfree c hc ?_
    rw [of_decide_eq_true hname]
  have hitem : ∀ item ∈ d.items,
      item.narrow? (available (settle declared conditions dimensions) d) = some item := by
    intro item hitem
    refine Item.narrow?_eq_some_iff.mpr ⟨item.conditions, rfl, ?_⟩
    refine List.forall₂_same.mpr fun c hc => ?_
    exact narrow?_eq_self h hd hitem hc (hvalues d hd item hitem c hc) hsame
  rw [settled, Dimension.filter_eq, hunnamed]
  simp only [Item.restrictAll?, List.foldlM_nil, Option.pure_def, Option.bind_some]
  rw [List.filterMap_congr hitem, List.filterMap_some]

theorem Reachable.dimension?_applyFilters {config : Config} (h : config.Reachable)
    {d : Dimension} (hd : d ∈ config.dimensions)
    (hsame : settled config.declared conditions config.dimensions d = d) :
    (config.applyFilters conditions).dimension? d.name = some d := by
  cases conditions with
  | nil => exact h.dimension?_eq hd
  | cons first rest =>
      have hmem := settled_mem_settle h.wellDeclared (first :: rest) hd
      rw [hsame] at hmem
      have hleft := wellDeclared_settle h.wellDeclared (first :: rest)
      exact find?_name_of_mem hleft.nodup_names hmem

/--
A dimension stays as it is, items, values and conditions in their order, unless
the filters name it or a dimension that it depends on, directly or not.
-/
theorem filter_local {config filtered : Config} {filters : List String} (h : config.Reachable)
    (hvalues : ∀ d ∈ config.dimensions, ∀ item ∈ d.items, ∀ c ∈ item.conditions,
      ∀ domain values, c.domains.get? domain = some values → values ≠ [])
    (hfilter : config.filter filters = .ok filtered) :
    ∃ conditions, Expression.filtersConditions config.dimensions filters = .ok conditions ∧
      ∀ d ∈ config.dimensions,
        (∀ c ∈ conditions,
          ¬Relation.ReflTransGen (DependsOn config.dimensions) d.name c.dimension) →
        filtered.dimension? d.name = some d := by
  obtain ⟨conditions, hconditions, rfl⟩ := filter_eq_ok_iff.mp hfilter
  refine ⟨conditions, hconditions, fun d hd hfree => ?_⟩
  exact h.dimension?_applyFilters hd (settled_eq_self h.wellDeclared hvalues hd hfree)

def zonedRacks : Value :=
  .object
    [("stage/[[]]", .object
      [("dev", .array [.string "d1"]), ("prod", .array [.string "p2", .string "p1"])]),
      ("region/<>", .object
        [("us[[prod]]", .array [.string "sfo", .string "nyc"]), ("eu", .array [.string "fra"])]),
      ("tenant/()", .object [("paid<us>", .array [.string "acme"])]),
      ("zone/%%", .object [("z", .array [.string "z1", .string "z2"])]),
      ("rack/||", .object [("r%z1%", .array [.string "r1"])])]

theorem filter_local_zonedRacks :
    ∃ config filtered : Config, config.Reachable ∧ config.filter ["zone=z2"] = .ok filtered ∧
      (∀ d ∈ filtered.dimensions, d.name = "rack" → d.items = []) ∧
      ∃ d ∈ config.dimensions, d.name = "tenant" ∧
        d.items.map (·.conditions) = [[⟨"region", ⟨0⟩, .single "us" ["sfo", "nyc"]⟩]] ∧
        filtered.dimension? "tenant" = some d := by
  have hparse : (parse .firstKey zonedRacks).toOption.any (fun config =>
      (config.filter ["zone=z2"]).toOption.any fun filtered =>
        (Expression.filtersConditions config.dimensions ["zone=z2"]).toOption.any fun conditions =>
          decide ((∀ d ∈ filtered.dimensions, d.name = "rack" → d.items = []) ∧
            (∀ d ∈ config.dimensions, ∀ item ∈ d.items, ∀ c ∈ item.conditions,
              ∀ entry ∈ c.domains.entries, entry.2 ≠ []) ∧
            (∀ d ∈ config.dimensions, d.name ∈ ["tenant", "region", "stage"] →
              ∀ other ∈ d.depends, other ∈ ["tenant", "region", "stage"]) ∧
            (∀ c ∈ conditions, c.dimension ∉ ["tenant", "region", "stage"]) ∧
            ∃ d ∈ config.dimensions, d.name = "tenant" ∧
              d.items.map (·.conditions) =
                [[⟨"region", ⟨0⟩, .single "us" ["sfo", "nyc"]⟩]])) = true := by
    decide +kernel
  obtain ⟨config, hconfig, hany⟩ := any_toOption_iff.mp hparse
  obtain ⟨filtered, hfilter, hany⟩ := any_toOption_iff.mp hany
  obtain ⟨conditions, hconditions, hdecide⟩ := any_toOption_iff.mp hany
  obtain ⟨hracks, hvalues, hclosed, hzones, d, hd, hname, hitems⟩ := of_decide_eq_true hdecide
  have hreachable : config.Reachable := .parsed hconfig
  obtain ⟨found, hfound, hlocal⟩ := filter_local hreachable
    (fun d hd item hitem c hc domain values hget =>
      hvalues d hd item hitem c hc (domain, values) (OrderedMap.get?_eq_some_iff.mp hget)) hfilter
  cases hconditions.symm.trans hfound
  have hreach : ∀ name, Relation.ReflTransGen (DependsOn config.dimensions) "tenant" name →
      name ∈ ["tenant", "region", "stage"] := by
    intro name hreach
    induction hreach with
    | refl => simp
    | tail _ hstep ih =>
        obtain ⟨other, hother, rfl, hmem⟩ := hstep
        exact hclosed other hother ih _ hmem
  have hsame := hlocal d hd fun c hc hpath => hzones c hc (hreach c.dimension (hname ▸ hpath))
  rw [hname] at hsame
  exact ⟨config, filtered, hreachable, hfilter, hracks, d, hd, hname, hitems, hsame⟩

end Config

end Variants
