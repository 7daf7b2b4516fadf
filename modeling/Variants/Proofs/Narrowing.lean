import Variants.Config.Filtering
import Variants.Proofs.Declaration

/-!
# Filtering in one pass

A filter works on the items of a dimension one by one: it keeps the values that
the filters allow, and narrows the conditions to what their dimensions still
offer.  As dimensions depend on earlier declarations only, a single pass in the
declared order settles them all: each one ends up filtered under what is left
of the others at the end.
-/

namespace Variants

/-! ## Items -/

def Item.restrictAll? (filters : List Condition) (item : Item) : Option Item :=
  filters.foldlM (fun item filter => item.restrict? filter) item

theorem Item.restrict?_eq (filter : Condition) (item : Item) :
    item.restrict? filter =
      if item.register = filter.register then
        ((filter.domains.get? item.domain).bind fun others =>
          Domains.shared? others item.values).map fun values => { item with values }
      else some item := by
  unfold restrict?
  split
  · simp only [Domains.get?_intersect, OrderedMap.get?_single, if_true, Option.bind_some]
    cases (filter.domains.get? item.domain).bind fun others =>
      Domains.shared? others item.values <;> rfl
  · rfl

theorem Item.restrict?_eq_some {filter : Condition} {item result : Item}
    (h : item.restrict? filter = some result) :
    ∃ values, values ⊆ item.values ∧ result = { item with values } := by
  rw [restrict?_eq] at h
  split at h
  · obtain ⟨values, hvalues, rfl⟩ := Option.map_eq_some_iff.mp h
    obtain ⟨others, -, hshared⟩ := Option.bind_eq_some_iff.mp hvalues
    obtain ⟨rfl, -⟩ := Domains.shared?_eq_some_iff.mp hshared
    exact ⟨_, List.filter_subset_self _, rfl⟩
  · cases h
    exact ⟨_, List.Subset.refl _, rfl⟩

theorem Item.restrictAll?_eq_some {filters : List Condition} {item result : Item}
    (h : item.restrictAll? filters = some result) :
    ∃ values, values ⊆ item.values ∧ result = { item with values } := by
  induction filters generalizing item with
  | nil =>
      cases h
      exact ⟨_, List.Subset.refl _, rfl⟩
  | cons filter filters ih =>
      simp only [restrictAll?, List.foldlM_cons, Option.bind_eq_bind,
        Option.bind_eq_some_iff] at h
      obtain ⟨next, hnext, h⟩ := h
      obtain ⟨first, hfirst, rfl⟩ := restrict?_eq_some hnext
      obtain ⟨values, hvalues, rfl⟩ := ih h
      exact ⟨values, List.Subset.trans hvalues hfirst, rfl⟩

theorem Item.narrow?_eq_some_iff {available : OrderedMap String MergedValues}
    {item result : Item} :
    item.narrow? available = some result ↔
      ∃ conditions, result = { item with conditions } ∧
        List.Forall₂ (fun c narrowed => c.narrow? available = some narrowed)
          item.conditions conditions := by
  simp only [narrow?, Option.map_eq_some_iff, mapM_eq_some_iff]
  constructor
  · rintro ⟨conditions, hconditions, rfl⟩
    exact ⟨conditions, rfl, hconditions⟩
  · rintro ⟨conditions, rfl, hconditions⟩
    exact ⟨conditions, hconditions, rfl⟩

theorem Condition.narrow?_of_single {available : OrderedMap String MergedValues}
    {condition : Condition} {domain : String} {values : List String}
    (hdomains : condition.domains = .single domain values) {d : Dimension}
    (havailable : available.get? condition.dimension = some d.mergedValues) :
    condition.narrow? available =
      (Domains.shared? values (d.values condition.register domain)).map fun common =>
        { condition with domains := .single domain common } := by
  have hoffered : (d.mergedValues.get? condition.register).bind (fun current =>
      (current.get? domain).bind (Domains.shared? values)) =
      Domains.shared? values (d.values condition.register domain) := by
    rw [← Option.bind_assoc]
    change (Dimension.offeredIn d.mergedValues condition.register domain).bind _ = _
    rw [Dimension.offeredIn_mergedValues]
    cases hdomain : d.hasDomain condition.register domain with
    | true => rfl
    | false =>
        rw [d.values_of_not_hasDomain hdomain]
        rfl
  rw [← hoffered]
  unfold narrow?
  rw [havailable, hdomains]
  simp only [Option.bind_some]
  cases d.mergedValues.get? condition.register with
  | none => rfl
  | some current =>
      simp only [Domains.intersect_single, Option.bind_some]
      cases (current.get? domain).bind (Domains.shared? values) <;> rfl

/-! ## Dimensions -/

namespace Dimension

variable (filters : List Condition) (available : OrderedMap String MergedValues) (d : Dimension)

theorem foldl_restrict :
    filters.foldl restrict d =
      { d with
        items := d.items.filterMap
          (Item.restrictAll? (filters.filter fun filter => filter.dimension = d.name)) } := by
  induction filters generalizing d with
  | nil =>
      change d = { d with items := d.items.filterMap some }
      rw [List.filterMap_some]
  | cons filter filters ih =>
      rw [List.foldl_cons, ih]
      unfold restrict
      by_cases h : filter.dimension = d.name
      · simp only [h, if_true, List.filter_cons, decide_true, List.filterMap_filterMap]
        rfl
      · simp [h]

theorem filter_eq :
    d.filter filters available =
      { d with
        items := d.items.filterMap fun item =>
          (item.restrictAll? (filters.filter fun filter => filter.dimension = d.name)).bind
            (Item.narrow? available) } := by
  simp [Dimension.filter, narrow, foldl_restrict, List.filterMap_filterMap]

@[simp] theorem filter_name : (d.filter filters available).name = d.name := by
  rw [filter_eq]

@[simp] theorem filter_brackets : (d.filter filters available).brackets = d.brackets := by
  rw [filter_eq]

@[simp] theorem filter_depends : (d.filter filters available).depends = d.depends := by
  rw [filter_eq]

end Dimension

/-! ## Parts of a dimension -/

namespace Dimension

/-- Every item comes from one of the whole dimension, with fewer values perhaps. -/
structure Within (left d : Dimension) : Prop where
  name_eq : left.name = d.name
  exists_item : ∀ item ∈ left.items, ∃ source ∈ d.items, item.register = source.register ∧
    item.domain = source.domain ∧ item.values ⊆ source.values

namespace Within

variable {left d : Dimension}

theorem refl (d : Dimension) : d.Within d where
  name_eq := rfl
  exists_item := fun item hitem => ⟨item, hitem, rfl, rfl, List.Subset.refl _⟩

theorem registers_subset (h : left.Within d) : left.registers ⊆ d.registers := by
  intro register hregister
  obtain ⟨item, hitem, rfl⟩ := left.mem_registers.mp hregister
  obtain ⟨source, hsource, heq, -⟩ := h.exists_item item hitem
  exact d.mem_registers.mpr ⟨source, hsource, heq.symm⟩

theorem hasDomain (h : left.Within d) {register : Register} {domain : String}
    (hdomain : left.hasDomain register domain = true) : d.hasDomain register domain = true := by
  obtain ⟨item, hitem, rfl, rfl⟩ := left.hasDomain_iff.mp hdomain
  obtain ⟨source, hsource, hregister, hdomain, -⟩ := h.exists_item item hitem
  exact d.hasDomain_iff.mpr ⟨source, hsource, hregister.symm, hdomain.symm⟩

theorem values_subset (h : left.Within d) (register : Register) (domain : String) :
    left.values register domain ⊆ d.values register domain := by
  intro value hvalue
  obtain ⟨item, hitem, rfl, rfl, hmem⟩ := left.mem_values.mp hvalue
  obtain ⟨source, hsource, hregister, hdomain, hsub⟩ := h.exists_item item hitem
  exact d.mem_values.mpr ⟨source, hsource, hregister.symm, hdomain.symm, hsub hmem⟩

end Within

end Dimension

/-! ## All dimensions -/

theorem find?_name_of_mem {dimensions : List Dimension}
    (hnodup : (dimensions.map (·.name)).Nodup) {d : Dimension} (hd : d ∈ dimensions) :
    dimensions.find? (·.name == d.name) = some d := by
  induction dimensions with
  | nil => cases hd
  | cons first rest ih =>
      obtain ⟨hfirst, hrest⟩ := List.nodup_cons.mp hnodup
      rcases List.mem_cons.mp hd with rfl | hd
      · simp
      · have hne : first.name ≠ d.name := by
          intro heq
          exact hfirst (List.mem_map.mpr ⟨d, hd, heq.symm⟩)
        simp [hne, ih hrest hd]

namespace Config

variable {dimensions : List Dimension}

theorem get?_available (dimensions : List Dimension) (d : Dimension) (name : String) :
    (available dimensions d).get? name =
      if name ∈ d.depends then (dimensions.find? (·.name == name)).map (·.mergedValues)
      else none := by
  rw [← OrderedMap.get?_ofList_filterMap
    (fun name => (dimensions.find? (·.name == name)).map (·.mergedValues))]
  simp only [available, Option.map_map]
  rfl

theorem available_congr {others : List Dimension} {d : Dimension}
    (h : ∀ name ∈ d.depends,
      dimensions.find? (·.name == name) = others.find? (·.name == name)) :
    available dimensions d = available others d := by
  unfold available
  rw [List.filterMap_congr fun name hname => by rw [h name hname]]

theorem find?_filterNamed (conditions : List Condition) (dimensions : List Dimension)
    {name other : String} (hne : other ≠ name) :
    (filterNamed conditions dimensions name).find? (·.name == other) =
      dimensions.find? (·.name == other) := by
  have hname : ∀ d : Dimension,
      (if d.name = name then d.filter conditions (available dimensions d) else d).name =
        d.name := by
    intro d
    split <;> simp
  unfold filterNamed
  rw [List.find?_map]
  simp only [Function.comp_def, hname]
  cases hfind : dimensions.find? (·.name == other) with
  | none => rfl
  | some d =>
      have hother : d.name = other := by simpa using List.find?_some hfind
      simp [hother, hne]

theorem mem_of_mem_depends {declared before after : List String}
    (h : WellDeclared dimensions declared) {name : String}
    (hsplit : declared = before ++ name :: after) {d : Dimension} (hd : d ∈ dimensions)
    (hname : d.name = name ∨ d.name ∈ before) {other : String} (hother : other ∈ d.depends) :
    other ∈ before ∧ other ≠ name := by
  have hlt := h.depends_earlier d hd other hother
  have hnodup := h.nodup
  rw [hsplit] at hlt hnodup
  obtain ⟨-, -, hdisjoint⟩ := List.nodup_append.mp hnodup
  have hfresh : name ∉ before := fun hmem =>
    hdisjoint name hmem name List.mem_cons_self rfl
  have hindex : (before ++ name :: after).idxOf d.name ≤ before.length := by
    rcases hname with rfl | hname
    · simp [List.idxOf_append, hfresh]
    · rw [List.idxOf_append_of_mem hname]
      exact List.idxOf_le_length
  have hmem : other ∈ before := by
    by_contra hnot
    rw [List.idxOf_append_of_notMem hnot] at hlt
    omega
  exact ⟨hmem, fun heq => hfresh (heq ▸ hmem)⟩

/-- After a part of the pass, exactly the dimensions visited are settled. -/
theorem foldl_filterNamed_of_prefix {declared : List String}
    (h : WellDeclared dimensions declared) (conditions : List Condition)
    {before after : List String} (hsplit : declared = before ++ after) :
    before.foldl (filterNamed conditions) dimensions =
      dimensions.map fun d =>
        if d.name ∈ before then
          d.filter conditions
            (available (before.foldl (filterNamed conditions) dimensions) d)
        else d := by
  induction before using List.reverseRecOn generalizing after with
  | nil => simp
  | append_singleton before name ih =>
      have hsplit' : declared = before ++ name :: after := by simpa using hsplit
      have hstep := ih hsplit'
      rw [List.foldl_append, List.foldl_cons, List.foldl_nil]
      generalize hsettled : before.foldl (filterNamed conditions) dimensions = settled at hstep ⊢
      -- The visit of `name` changes nothing that a dimension visited so far looks at.
      have havailable : ∀ d ∈ dimensions, d.name = name ∨ d.name ∈ before →
          available (filterNamed conditions settled name) d = available settled d :=
        fun d hd hname => available_congr fun other hother =>
          find?_filterNamed conditions settled (mem_of_mem_depends h hsplit' hd hname hother).2
      have hfresh : name ∉ before := by
        have hnodup := h.nodup
        rw [hsplit'] at hnodup
        intro hmem
        exact (List.nodup_append.mp hnodup).2.2 name hmem name List.mem_cons_self rfl
      refine (congrArg (List.map fun d =>
        if d.name = name then d.filter conditions (available settled d) else d) hstep).trans ?_
      rw [List.map_map]
      refine List.map_congr_left fun d hd => ?_
      simp only [Function.comp_apply, List.mem_append, List.mem_singleton]
      by_cases hbefore : d.name ∈ before
      · have hne : d.name ≠ name := fun heq => hfresh (heq ▸ hbefore)
        simp [hbefore, hne, havailable d hd (.inr hbefore)]
      · by_cases hname : d.name = name
        · simp [hname, hfresh, havailable d hd (.inl hname)]
        · simp [hbefore, hname]

def settle (declared : List String) (conditions : List Condition) (dimensions : List Dimension) :
    List Dimension :=
  declared.foldl (filterNamed conditions) dimensions

/-- A dimension filtered under what is left of the others in the end. -/
def settled (declared : List String) (conditions : List Condition) (dimensions : List Dimension)
    (d : Dimension) : Dimension :=
  d.filter conditions (available (settle declared conditions dimensions) d)

theorem settle_eq_map {declared : List String} (h : WellDeclared dimensions declared)
    (conditions : List Condition) :
    settle declared conditions dimensions =
      dimensions.map (settled declared conditions dimensions) := by
  have hpass := foldl_filterNamed_of_prefix h conditions (List.append_nil declared).symm
  refine hpass.trans (List.map_congr_left fun d hd => ?_)
  rw [if_pos (h.mem_declared_iff.mpr ⟨d, hd, rfl⟩)]
  rfl

theorem settled_mem_settle {declared : List String} (h : WellDeclared dimensions declared)
    (conditions : List Condition) {d : Dimension} (hd : d ∈ dimensions) :
    settled declared conditions dimensions d ∈ settle declared conditions dimensions := by
  rw [settle_eq_map h]
  exact List.mem_map_of_mem hd

theorem map_name_settle {declared : List String} (h : WellDeclared dimensions declared)
    (conditions : List Condition) :
    (settle declared conditions dimensions).map (·.name) = dimensions.map (·.name) := by
  rw [settle_eq_map h, List.map_map]
  exact List.map_congr_left fun d _ => Dimension.filter_name ..

theorem find?_settle {declared : List String} (h : WellDeclared dimensions declared)
    (conditions : List Condition) {d : Dimension} (hd : d ∈ dimensions) :
    (settle declared conditions dimensions).find? (·.name == d.name) =
      some (settled declared conditions dimensions d) := by
  have hnodup : ((settle declared conditions dimensions).map (·.name)).Nodup := by
    rw [map_name_settle h]
    exact h.nodup_names
  have hfind := find?_name_of_mem hnodup (settled_mem_settle h conditions hd)
  rwa [settled, Dimension.filter_name, ← settled] at hfind

theorem get?_available_settle {declared : List String} (h : WellDeclared dimensions declared)
    (conditions : List Condition) {d other : Dimension} (hother : other ∈ dimensions)
    (hdepends : other.name ∈ d.depends) :
    (available (settle declared conditions dimensions) d).get? other.name =
      some (settled declared conditions dimensions other).mergedValues := by
  rw [get?_available, if_pos hdepends, find?_settle h conditions hother]
  rfl

theorem narrow?_settle_of_single {declared : List String} (h : WellDeclared dimensions declared)
    (conditions : List Condition) {d other : Dimension} (hother : other ∈ dimensions)
    {c : Condition} (hname : c.dimension = other.name) (hdepends : c.dimension ∈ d.depends)
    {domain : String} {values : List String} (hdomains : c.domains = .single domain values) :
    c.narrow? (available (settle declared conditions dimensions) d) =
      (Domains.shared? values
        ((settled declared conditions dimensions other).values c.register domain)).map
          fun common => { c with domains := .single domain common } := by
  apply Condition.narrow?_of_single hdomains
  rw [hname] at hdepends ⊢
  exact get?_available_settle h conditions hother hdepends

theorem narrow?_settled {declared : List String} (h : WellDeclared dimensions declared)
    (conditions : List Condition) {d : Dimension} (hd : d ∈ dimensions) {item : Item}
    (hitem : item ∈ d.items) {c : Condition} (hc : c ∈ item.conditions) :
    ∃ other ∈ dimensions, c.dimension = other.name ∧
      ∃ domain values, c.domains = .single domain values ∧
        c.narrow? (available (settle declared conditions dimensions) d) =
          (Domains.shared? values
            ((settled declared conditions dimensions other).values c.register domain)).map
              fun common => { c with domains := .single domain common } := by
  obtain ⟨other, hother, hname, domain, values, hdomains, -, -⟩ := h.grounded d hd item hitem c hc
  exact ⟨other, hother, hname, domain, values, hdomains,
    narrow?_settle_of_single h conditions hother hname (h.mem_depends d hd item hitem c hc)
      hdomains⟩

theorem exists_of_mem_settled {declared : List String} {conditions : List Condition}
    {d : Dimension} {result : Item}
    (hresult : result ∈ (settled declared conditions dimensions d).items) :
    ∃ item ∈ d.items, result.register = item.register ∧ result.domain = item.domain ∧
      result.values ⊆ item.values ∧ List.Forall₂
        (fun c narrowed =>
          c.narrow? (available (settle declared conditions dimensions) d) = some narrowed)
        item.conditions result.conditions := by
  rw [settled, Dimension.filter_eq] at hresult
  obtain ⟨item, hitem, hresult⟩ := List.mem_filterMap.mp hresult
  obtain ⟨kept, hkept, hnarrowed⟩ := Option.bind_eq_some_iff.mp hresult
  obtain ⟨values, hvalues, rfl⟩ := Item.restrictAll?_eq_some hkept
  obtain ⟨narrowed, rfl, hconditions⟩ := Item.narrow?_eq_some_iff.mp hnarrowed
  exact ⟨item, hitem, rfl, rfl, hvalues, hconditions⟩

theorem within_settled (declared : List String) (conditions : List Condition)
    (dimensions : List Dimension) (d : Dimension) :
    (settled declared conditions dimensions d).Within d where
  name_eq := Dimension.filter_name ..
  exists_item := by
    intro result hresult
    obtain ⟨item, hitem, hregister, hdomain, hvalues, -⟩ := exists_of_mem_settled hresult
    exact ⟨item, hitem, hregister, hdomain, hvalues⟩

theorem grounded_settled {declared : List String} (h : WellDeclared dimensions declared)
    {conditions : List Condition} {d : Dimension} (hd : d ∈ dimensions) {item : Item}
    (hitem : item ∈ (settled declared conditions dimensions d).items) {c : Condition}
    (hc : c ∈ item.conditions) :
    c.dimension ∈ d.depends ∧ c.Grounded (settle declared conditions dimensions) := by
  obtain ⟨source, hsource, -, -, -, hconditions⟩ := exists_of_mem_settled hitem
  obtain ⟨original, horiginal, hnarrow⟩ := exists_mem_of_forall₂ hconditions hc
  obtain ⟨other, hother, hname, domain, values, -, heq⟩ :=
    narrow?_settled h conditions hd hsource horiginal
  rw [heq] at hnarrow
  obtain ⟨common, hcommon, rfl⟩ := Option.map_eq_some_iff.mp hnarrow
  obtain ⟨rfl, hne⟩ := Domains.shared?_eq_some_iff.mp hcommon
  obtain ⟨value, hvalue⟩ := List.exists_mem_of_ne_nil _ hne
  refine ⟨h.mem_depends d hd source hsource original horiginal,
    settled declared conditions dimensions other, settled_mem_settle h conditions hother, ?_,
    domain, _, rfl, ?_, List.filter_sublist⟩
  · exact hname.trans (Dimension.filter_name ..).symm
  · exact Dimension.hasDomain_of_mem_values _ (List.mem_of_mem_filter hvalue)

theorem wellDeclared_settle {declared : List String} (h : WellDeclared dimensions declared)
    (conditions : List Condition) :
    WellDeclared (settle declared conditions dimensions) declared := by
  have hsource : ∀ result ∈ settle declared conditions dimensions,
      ∃ d ∈ dimensions, settled declared conditions dimensions d = result := by
    intro result hresult
    rw [settle_eq_map h] at hresult
    exact List.mem_map.mp hresult
  refine ⟨h.nodup, ?_, ?_, ?_, ?_⟩
  · rw [map_name_settle h]
    exact h.perm
  · intro result hresult name hname
    obtain ⟨d, hd, rfl⟩ := hsource result hresult
    simp only [settled, Dimension.filter_depends, Dimension.filter_name] at hname ⊢
    exact h.depends_earlier d hd name hname
  · intro result hresult item hitem c hc
    obtain ⟨d, hd, rfl⟩ := hsource result hresult
    rw [settled, Dimension.filter_depends]
    exact (grounded_settled h hd hitem hc).1
  · intro result hresult item hitem c hc
    obtain ⟨d, hd, rfl⟩ := hsource result hresult
    exact (grounded_settled h hd hitem hc).2

theorem wellDeclared_applyFilters {config : Config}
    (h : WellDeclared config.dimensions config.declared) (conditions : List Condition) :
    WellDeclared (config.applyFilters conditions).dimensions
      (config.applyFilters conditions).declared := by
  cases conditions with
  | nil => exact h
  | cons first rest => exact wellDeclared_settle h (first :: rest)

theorem exists_within {config : Config}
    (h : WellDeclared config.dimensions config.declared)
    (conditions : List Condition) :
    ∃ left : Dimension → Dimension, (∀ d, (left d).Within d) ∧
      (config.applyFilters conditions).dimensions = config.dimensions.map left := by
  cases conditions with
  | nil => exact ⟨id, Dimension.Within.refl, (List.map_id _).symm⟩
  | cons first rest => exact ⟨_, within_settled _ _ _, settle_eq_map h (first :: rest)⟩

end Config

end Variants
