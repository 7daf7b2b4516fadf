import Variants.Proofs.Narrowing
import Variants.Proofs.Tuple

/-!
# Passes of a filter

Filters on one dimension restrict an item to the values that all of them allow,
in whatever order they come.  Two passes leave what one pass with the filters of
both leaves: the second finds conditions already narrowed to values of the first,
and narrows them to values that are among these.
-/

namespace Variants

/-! ## Values that filters keep -/

def someValues (values : List String) : Option (List String) :=
  if values = [] then none else some values

theorem someValues_bind_filter (values : List String) (p : String → Bool) :
    (someValues values).bind (fun kept => someValues (kept.filter p)) =
      someValues (values.filter p) := by
  by_cases h : values = [] <;> simp [someValues, h]

theorem Condition.shared?_eq_someValues (filter : Condition) (domain : String)
    (values : List String) :
    ((filter.domains.get? domain).bind fun others => Domains.shared? others values) =
      someValues (values.filter (filter.allows domain)) := by
  unfold allows
  cases filter.domains.get? domain with
  | none => simp [someValues]
  | some others => rfl

def allows (filters : List Condition) (register : Register) (domain value : String) : Bool :=
  filters.all fun filter => filter.register != register || filter.allows domain value

def keptValues (filters : List Condition) (register : Register) (domain : String)
    (values : List String) : Option (List String) :=
  if filters.any (·.register == register) then
    someValues (values.filter (allows filters register domain))
  else some values

theorem keptValues_of_any {filters : List Condition} {register : Register}
    (h : filters.any (·.register == register) = true) (domain : String) :
    keptValues filters register domain = fun values =>
      someValues (values.filter (allows filters register domain)) := by
  funext values
  rw [keptValues, if_pos h]

theorem keptValues_of_not_any {filters : List Condition} {register : Register}
    (h : filters.any (·.register == register) = false) (domain : String) :
    keptValues filters register domain = some ∧
      ∀ value, allows filters register domain value = true := by
  refine ⟨?_, ?_⟩
  · funext values
    simp [keptValues, h]
  · simp_all [allows]

theorem keptValues_cons (filter : Condition) (filters : List Condition) (register : Register)
    (domain : String) (values : List String) :
    keptValues (filter :: filters) register domain values =
      (if register = filter.register then someValues (values.filter (filter.allows domain))
        else some values).bind (keptValues filters register domain) := by
  by_cases hregister : register = filter.register
  · have hallows : allows (filter :: filters) register domain =
        fun value => allows filters register domain value && filter.allows domain value := by
      funext value
      simp [allows, hregister, Bool.and_comm]
    rw [if_pos hregister, keptValues_of_any (by simp [hregister])]
    simp only [hallows, ← List.filter_filter]
    cases hany : filters.any (·.register == register) with
    | true => rw [keptValues_of_any hany, someValues_bind_filter]
    | false =>
        obtain ⟨hkept, hall⟩ := keptValues_of_not_any hany domain
        simp [hkept, hall]
  · have hallows : allows (filter :: filters) register domain = allows filters register domain := by
      funext value
      simp [allows, Ne.symm hregister]
    simp [keptValues, hregister, Ne.symm hregister, hallows]

/-! ## Restriction -/

namespace Item

theorem restrictAll?_append (filters more : List Condition) (item : Item) :
    item.restrictAll? (filters ++ more) =
      (item.restrictAll? filters).bind (restrictAll? more) :=
  List.foldlM_append

theorem restrictAll?_eq (filters : List Condition) (item : Item) :
    item.restrictAll? filters =
      (keptValues filters item.register item.domain item.values).map fun values =>
        { item with values } := by
  induction filters generalizing item with
  | nil => rfl
  | cons filter rest ih =>
      have hstep : item.restrictAll? (filter :: rest) =
          (item.restrict? filter).bind (restrictAll? rest) := rfl
      rw [hstep, restrict?_eq, Condition.shared?_eq_someValues, keptValues_cons]
      split
      · cases someValues (item.values.filter (filter.allows item.domain)) with
        | none => rfl
        | some kept => exact ih { item with values := kept }
      · exact ih item

theorem restrictAll?_congr {filters others : List Condition} {item : Item}
    (hany : filters.any (·.register == item.register) = others.any (·.register == item.register))
    (hallows : ∀ value ∈ item.values, allows filters item.register item.domain value =
      allows others item.register item.domain value) :
    item.restrictAll? filters = item.restrictAll? others := by
  rw [restrictAll?_eq, restrictAll?_eq, keptValues, keptValues, hany, List.filter_congr hallows]

theorem restrictAll?_append_comm (filters more : List Condition) (item : Item) :
    item.restrictAll? (filters ++ more) = item.restrictAll? (more ++ filters) := by
  apply restrictAll?_congr
  · simp [Bool.or_comm]
  · simp [allows, Bool.and_comm]

theorem restrictAll?_append_self (filters : List Condition) (item : Item) :
    item.restrictAll? (filters ++ filters) = item.restrictAll? filters := by
  apply restrictAll?_congr
  · simp
  · simp [allows]

theorem restrictAll?_with_conditions (filters : List Condition) (item : Item)
    (conditions : List Condition) :
    ({ item with conditions } : Item).restrictAll? filters =
      (item.restrictAll? filters).map fun kept => { kept with conditions } := by
  rw [restrictAll?_eq, restrictAll?_eq, Option.map_map]
  rfl

/-! ## Two passes over an item -/

theorem mapM_bind_mapM {α β γ : Type} {f : α → Option β} {g : β → Option γ} {k : α → Option γ}
    {xs : List α} (h : ∀ x ∈ xs, (f x).bind g = k x) :
    (xs.mapM f).bind (List.mapM g) = xs.mapM k := by
  induction xs with
  | nil => rfl
  | cons x xs ih =>
      obtain ⟨hx, hxs⟩ := List.forall_mem_cons.mp h
      have ih := ih hxs
      rw [List.mapM_cons, List.mapM_cons, ← hx, ← ih]
      cases f x with
      | none => rfl
      | some y =>
          cases xs.mapM f with
          | none => cases hgy : g y <;> simp [hgy]
          | some ys => simp

/-- A pass that narrows, and one that narrows further, are one pass with all filters. -/
theorem restrictAll?_narrow?_twice (filters more : List Condition)
    {first second both : OrderedMap String MergedValues} {item : Item}
    (hnarrow : ∀ c ∈ item.conditions,
      (c.narrow? first).bind (Condition.narrow? second) = c.narrow? both) :
    ((item.restrictAll? filters).bind (narrow? first)).bind
        (fun left => (left.restrictAll? more).bind (narrow? second)) =
      (item.restrictAll? (filters ++ more)).bind (narrow? both) := by
  have htwice := mapM_bind_mapM hnarrow
  rw [restrictAll?_append]
  cases hkept : item.restrictAll? filters with
  | none => rfl
  | some kept =>
      obtain ⟨values, -, rfl⟩ := restrictAll?_eq_some hkept
      have hboth : ∀ final, ({ item with values } : Item).restrictAll? more = some final →
          final.conditions = item.conditions := by
        intro final hfinal
        obtain ⟨_, -, rfl⟩ := restrictAll?_eq_some hfinal
        rfl
      rw [Option.bind_some, Option.bind_some, narrow?]
      cases hconditions : item.conditions.mapM (Condition.narrow? first) with
      | none =>
          rw [hconditions, Option.bind_none] at htwice
          cases hfinal : ({ item with values } : Item).restrictAll? more with
          | none => rfl
          | some final => simp [narrow?, hboth final hfinal, ← htwice]
      | some conditions =>
          rw [hconditions, Option.bind_some] at htwice
          have hwith := restrictAll?_with_conditions more { item with values } conditions
          rw [Option.map_some, Option.bind_some, hwith]
          cases hfinal : ({ item with values } : Item).restrictAll? more with
          | none => rfl
          | some final => simp [narrow?, hboth final hfinal, ← htwice]

end Item

/-! ## Two passes over the dimensions -/

theorem Domains.shared?_shared? {values more fewer : List String} (hsub : fewer ⊆ more) :
    (shared? values more).bind (fun common => shared? common fewer) = shared? values fewer := by
  have hagain : fewer.filter (more.filter values.contains).contains =
      fewer.filter values.contains := by
    apply List.filter_congr
    intro value hvalue
    simp [hsub hvalue]
  unfold shared?
  by_cases hmore : more.filter values.contains = []
  · have hfewer : fewer.filter values.contains = [] := by
      rw [List.filter_eq_nil_iff] at hmore ⊢
      exact fun value hvalue => hmore value (hsub hvalue)
    simp [hmore, hfewer]
  · rw [if_neg hmore, Option.bind_some, hagain]

namespace Config

variable {dimensions : List Dimension} {declared : List String}

theorem settled_settled (h : WellDeclared dimensions declared) (filters more : List Condition)
    {d : Dimension} (hd : d ∈ dimensions) :
    settled declared more (settle declared filters dimensions)
        (settled declared filters dimensions d) =
      settled declared (filters ++ more) dimensions d := by
  apply h.induction_on_depends ?_ hd
  intro d hd ih
  have hleft := wellDeclared_settle h filters
  have hnarrow : ∀ item ∈ d.items, ∀ c ∈ item.conditions,
      (c.narrow? (available (settle declared filters dimensions) d)).bind (Condition.narrow?
        (available (settle declared more (settle declared filters dimensions)) d)) =
      c.narrow? (available (settle declared (filters ++ more) dimensions) d) := by
    intro item hitem c hc
    have hdepends := h.mem_depends d hd item hitem c hc
    obtain ⟨other, hother, hname, domain, values, hdomains, -⟩ :=
      h.grounded d hd item hitem c hc
    have hagain : ∀ common : List String,
        Condition.narrow?
          (available (settle declared more (settle declared filters dimensions)) d)
          { c with domains := .single domain common } =
        (Domains.shared? common ((settled declared (filters ++ more) dimensions other).values
          c.register domain)).map fun fewer => { c with domains := .single domain fewer } := by
      intro common
      rw [← ih other hother (hname ▸ hdepends)]
      exact narrow?_settle_of_single (c := { c with domains := .single domain common }) hleft more
        (settled_mem_settle h filters hother)
        (hname.trans (Dimension.filter_name ..).symm) hdepends rfl
    have hsub : (settled declared (filters ++ more) dimensions other).values c.register domain ⊆
        (settled declared filters dimensions other).values c.register domain := by
      rw [← ih other hother (hname ▸ hdepends)]
      exact (within_settled ..).values_subset c.register domain
    rw [narrow?_settle_of_single h filters hother hname hdepends hdomains,
      narrow?_settle_of_single h (filters ++ more) hother hname hdepends hdomains,
      ← Domains.shared?_shared? hsub]
    cases Domains.shared? values
      ((settled declared filters dimensions other).values c.register domain) with
    | none => rfl
    | some common => exact hagain common
  have hitems : ∀ item ∈ d.items, _ := fun item hitem =>
    Item.restrictAll?_narrow?_twice (filters.filter fun c => c.dimension = d.name)
      (more.filter fun c => c.dimension = d.name) (hnarrow item hitem)
  simp only [settled, Dimension.filter_eq, List.filterMap_filterMap, List.filter_append]
  exact congrArg (fun items => { d with items }) (List.filterMap_congr hitems)

theorem settle_settle (h : WellDeclared dimensions declared) (filters more : List Condition) :
    settle declared more (settle declared filters dimensions) =
      settle declared (filters ++ more) dimensions := by
  rw [settle_eq_map (wellDeclared_settle h filters), settle_eq_map h (filters ++ more)]
  refine (congrArg (List.map _) (settle_eq_map h filters)).trans ?_
  rw [List.map_map]
  exact List.map_congr_left fun d hd => settled_settled h filters more hd

theorem settle_congr (h : WellDeclared dimensions declared) {filters others : List Condition}
    (hsame : ∀ d ∈ dimensions, ∀ item ∈ d.items,
      item.restrictAll? (filters.filter fun c => c.dimension = d.name) =
        item.restrictAll? (others.filter fun c => c.dimension = d.name)) :
    settle declared filters dimensions = settle declared others dimensions := by
  rw [settle_eq_map h, settle_eq_map h]
  refine List.map_congr_left fun d hd => h.induction_on_depends
    (P := fun d => settled declared filters dimensions d = settled declared others dimensions d)
    (fun d hd ih => ?_) hd
  have havailable : available (settle declared filters dimensions) d =
      available (settle declared others dimensions) d := by
    apply available_congr
    intro name hname
    obtain ⟨other, hother, rfl⟩ := h.exists_of_mem_depends hd hname
    rw [find?_settle h filters hother, find?_settle h others hother, ih other hother hname]
  rw [settled, settled, Dimension.filter_eq, Dimension.filter_eq, havailable]
  refine congrArg (fun items => { d with items }) (List.filterMap_congr fun item hitem => ?_)
  rw [hsame d hd item hitem]

/-! ## Calls of the filter -/

variable {config : Config}

theorem applyFilters_applyFilters (h : WellDeclared config.dimensions config.declared)
    (filters more : List Condition) :
    (config.applyFilters filters).applyFilters more = config.applyFilters (filters ++ more) := by
  cases filters with
  | nil => rfl
  | cons first rest =>
      cases more with
      | nil => rw [List.append_nil]; rfl
      | cons next others =>
          exact congrArg (fun dimensions => { config with dimensions })
            (settle_settle h (first :: rest) (next :: others))

theorem applyFilters_congr (h : WellDeclared config.dimensions config.declared)
    {filters others : List Condition} (hnil : filters = [] ↔ others = [])
    (hsame : ∀ d ∈ config.dimensions, ∀ item ∈ d.items,
      item.restrictAll? (filters.filter fun c => c.dimension = d.name) =
        item.restrictAll? (others.filter fun c => c.dimension = d.name)) :
    config.applyFilters filters = config.applyFilters others := by
  have hsettle := settle_congr h hsame
  cases filters with
  | nil => rw [hnil.mp rfl]
  | cons first rest =>
      cases others with
      | nil => exact absurd (hnil.mpr rfl) (List.cons_ne_nil first rest)
      | cons next more => exact congrArg (fun dimensions => { config with dimensions }) hsettle

theorem applyFilters_append_comm (h : WellDeclared config.dimensions config.declared)
    (filters more : List Condition) :
    config.applyFilters (filters ++ more) = config.applyFilters (more ++ filters) := by
  apply applyFilters_congr h
  · simp [and_comm]
  · intro d _ item _
    rw [List.filter_append, List.filter_append, Item.restrictAll?_append_comm]

theorem applyFilters_append_self (h : WellDeclared config.dimensions config.declared)
    (filters : List Condition) :
    config.applyFilters (filters ++ filters) = config.applyFilters filters := by
  apply applyFilters_congr h
  · simp
  · intro d _ item _
    rw [List.filter_append, Item.restrictAll?_append_self]

end Config

end Variants
