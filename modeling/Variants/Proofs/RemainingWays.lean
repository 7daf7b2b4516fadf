import Mathlib.Algebra.Order.BigOperators.Group.List
import Mathlib.Algebra.Order.Group.Nat
import Variants.Proofs.Generation

/-!
# Ways that filters leave

Filtering never adds to the ways in which a selection is offered.  It leaves
none to a selection that a filter rules out, and keeps those of an item whose
conditions are about selections that are still offered themselves.
-/

namespace Variants

namespace Domains

theorem any_shared? (others values : List String) (value : String) :
    (shared? others values).any (·.contains value) =
      (values.contains value && others.contains value) := by
  unfold shared?
  split
  · next h =>
      have hvalue : value ∉ values.filter others.contains := by
        rw [h]
        exact List.not_mem_nil
      rw [List.mem_filter] at hvalue
      simp_all
  · rw [Option.any_some, ← List.elem_eq_contains, ← List.elem_eq_contains, Bool.eq_iff_iff]
    simp [List.mem_filter]

theorem count_shared? (others values : List String) (value : String) :
    (shared? others values).elim 0 (List.count value) =
      if others.contains value = true then values.count value else 0 := by
  have hcount : (shared? others values).elim 0 (List.count value) =
      (values.filter others.contains).count value := by
    unfold shared?
    split
    · next h => simp [h]
    · rfl
  rw [hcount]
  split
  · next h => exact List.count_filter h
  · next h =>
      apply List.count_eq_zero.mpr
      intro hmem
      exact h (List.mem_filter.mp hmem).2

end Domains

/-- The tuple meets the conditions that are about the register. -/
def Tuple.meetsAt (tuple : Tuple) (register : Register) (conditions : List Condition) : Bool :=
  conditions.all fun c => c.register != register || tuple.meets c

/-! ## Items -/

namespace Item

variable {tuple : Tuple} {register : Register} {selection : Selection}

theorem ways_eq_zero {item : Item}
    (h : ¬(item.register = register ∧ item.domain = selection.domain)) :
    item.ways tuple register selection = 0 := by
  rw [ways, if_neg]
  intro hcounts
  exact h ⟨hcounts.1, hcounts.2.1⟩

theorem ways_of_at {item : Item} (hregister : item.register = register)
    (hdomain : item.domain = selection.domain) :
    item.ways tuple register selection =
      if item.conditions.all tuple.meets = true then item.values.count selection.value else 0 := by
  simp [ways, hregister, hdomain]

theorem ways_shared? {item : Item} (hregister : item.register = register)
    (hdomain : item.domain = selection.domain) (others : List String) :
    ((Domains.shared? others item.values).map fun values => ({ item with values } : Item)).elim 0
        (ways tuple register selection) =
      if others.contains selection.value = true
      then item.ways tuple register selection
      else 0 := by
  have hcount := Domains.count_shared? others item.values selection.value
  have hwith : ∀ values, ({ item with values } : Item).ways tuple register selection =
      if item.conditions.all tuple.meets = true then values.count selection.value else 0 :=
    fun values => ways_of_at hregister hdomain
  rw [ways_of_at hregister hdomain]
  generalize item.conditions.all tuple.meets = met at hwith ⊢
  cases met with
  | false => cases Domains.shared? others item.values <;> simp [hwith]
  | true =>
      rw [if_pos rfl, ← hcount]
      cases Domains.shared? others item.values <;> simp [hwith]

theorem ways_restrict? {filter : Condition}
    (hselection : tuple.selection? filter.dimension register = some selection) (item : Item) :
    (item.restrict? filter).elim 0 (ways tuple register selection) =
      if (filter.register != register || tuple.meets filter) = true
      then item.ways tuple register selection
      else 0 := by
  by_cases hitem : item.register = register ∧ item.domain = selection.domain
  · obtain ⟨hregister, hdomain⟩ := hitem
    rw [restrict?_eq]
    by_cases hfilter : filter.register = register
    · have hget : filter.domains.get? item.domain = filter.domains.get? selection.domain := by
        rw [hdomain]
      have hmeets : tuple.meets filter = (filter.domains.get? selection.domain).any fun values =>
          values.contains selection.value := by
        rw [Tuple.meets, hfilter, hselection]
        rfl
      rw [if_pos (hregister.trans hfilter.symm), hget, hmeets, hfilter, bne_self_eq_false,
        Bool.false_or]
      cases filter.domains.get? selection.domain with
      | none => simp
      | some others => exact ways_shared? hregister hdomain others
    · have hother : item.register ≠ filter.register := fun heq =>
        hfilter (heq.symm.trans hregister)
      simp [hother, hfilter]
  · rw [ways_eq_zero hitem, ite_self]
    cases hleft : item.restrict? filter with
    | none => rfl
    | some left =>
        obtain ⟨values, -, rfl⟩ := restrict?_eq_some hleft
        exact ways_eq_zero hitem

theorem ways_restrictAll? {name : String} {filters : List Condition}
    (hfilters : ∀ filter ∈ filters, filter.dimension = name)
    (hselection : tuple.selection? name register = some selection) (item : Item) :
    (item.restrictAll? filters).elim 0 (ways tuple register selection) =
      if tuple.meetsAt register filters = true
      then item.ways tuple register selection
      else 0 := by
  induction filters generalizing item with
  | nil => simp [restrictAll?, Tuple.meetsAt]
  | cons filter rest ih =>
      have hstep : item.restrictAll? (filter :: rest) =
          (item.restrict? filter).bind (restrictAll? rest) := rfl
      have hname : filter.dimension = name := hfilters filter List.mem_cons_self
      have hfirst := ways_restrict? (hname.symm ▸ hselection) item
      have hrest := ih fun other hother => hfilters other (List.mem_cons_of_mem _ hother)
      have hmeetsAt : tuple.meetsAt register (filter :: rest) =
          ((filter.register != register || tuple.meets filter) &&
            tuple.meetsAt register rest) := rfl
      rw [hstep, hmeetsAt]
      cases hleft : item.restrict? filter with
      | none =>
          rw [hleft, Option.elim_none] at hfirst
          by_cases hmeets : (filter.register != register || tuple.meets filter) = true
          · rw [if_pos hmeets] at hfirst
            simp [← hfirst]
          · simp [hmeets]
      | some next =>
          rw [hleft, Option.elim_some] at hfirst
          rw [Option.bind_some, hrest, hfirst]
          by_cases hmeets : (filter.register != register || tuple.meets filter) = true <;>
            simp [hmeets]

theorem all_mapM {α β : Type} (f : α → Option β) (p : β → Bool) (xs : List α) :
    ((xs.mapM f).any fun ys => ys.all p) = xs.all fun x => (f x).any p := by
  induction xs with
  | nil => rfl
  | cons x xs ih =>
      rw [List.mapM_cons, List.all_cons, ← ih]
      cases f x with
      | none => rfl
      | some y => cases xs.mapM f <;> simp

/-- Narrowing keeps an item's ways if what its conditions are about is still `left`. -/
theorem ways_narrow? {available : OrderedMap String MergedValues} {item : Item}
    {left : Condition → Bool}
    (hleft : ∀ c ∈ item.conditions,
      (c.narrow? available).any tuple.meets = (tuple.meets c && left c)) :
    (item.narrow? available).elim 0 (ways tuple register selection) =
      if item.conditions.all left = true then item.ways tuple register selection else 0 := by
  have hall : ((item.conditions.mapM (Condition.narrow? available)).any fun conditions =>
      conditions.all tuple.meets) =
        (item.conditions.all tuple.meets && item.conditions.all left) := by
    rw [all_mapM, Bool.eq_iff_iff]
    simp only [Bool.and_eq_true, List.all_eq_true, ← forall₂_and]
    refine forall₂_congr fun c hc => ?_
    rw [hleft c hc, Bool.and_eq_true]
  by_cases hat : item.register = register ∧ item.domain = selection.domain
  · rw [ways_of_at hat.1 hat.2]
    unfold narrow?
    cases hmapM : item.conditions.mapM (Condition.narrow? available) with
    | none =>
        rw [hmapM, Option.any_none] at hall
        cases hmeets : item.conditions.all tuple.meets <;> simp_all
    | some conditions =>
        have hnarrowed : ({ item with conditions } : Item).ways tuple register selection =
            if conditions.all tuple.meets = true
            then item.values.count selection.value
            else 0 := ways_of_at hat.1 hat.2
        rw [hmapM, Option.any_some] at hall
        rw [Option.map_some, Option.elim_some, hnarrowed, hall]
        cases item.conditions.all left <;> simp
  · rw [ways_eq_zero hat, ite_self]
    cases hnarrow : item.narrow? available with
    | none => rfl
    | some result =>
        obtain ⟨conditions, rfl, -⟩ := narrow?_eq_some_iff.mp hnarrow
        exact ways_eq_zero hat

theorem ways_restrictAll?_narrow? {name : String} {filters : List Condition}
    (hfilters : ∀ filter ∈ filters, filter.dimension = name)
    (hselection : tuple.selection? name register = some selection)
    {available : OrderedMap String MergedValues} {item : Item} {left : Condition → Bool}
    (hleft : ∀ c ∈ item.conditions,
      (c.narrow? available).any tuple.meets = (tuple.meets c && left c)) :
    ((item.restrictAll? filters).bind (narrow? available)).elim 0
        (ways tuple register selection) =
      if tuple.meetsAt register filters = true
      then if item.conditions.all left = true then item.ways tuple register selection else 0
      else 0 := by
  have hrestricted := ways_restrictAll? hfilters hselection item
  generalize tuple.meetsAt register filters = met at hrestricted ⊢
  cases hkept : item.restrictAll? filters with
  | none =>
      rw [hkept, Option.elim_none] at hrestricted
      cases met with
      | false => rfl
      | true =>
          rw [if_pos rfl] at hrestricted
          simp [← hrestricted]
  | some kept =>
      obtain ⟨values, -, rfl⟩ := restrictAll?_eq_some hkept
      have hconditions : ∀ c ∈ ({ item with values } : Item).conditions,
          (c.narrow? available).any tuple.meets = (tuple.meets c && left c) := hleft
      rw [hkept, Option.elim_some] at hrestricted
      rw [Option.bind_some, ways_narrow? hconditions, hrestricted]
      cases met <;> simp

end Item

/-! ## Dimensions -/

theorem sum_map_filterMap {α β : Type} (f : α → Option β) (g : β → Nat) (xs : List α) :
    ((xs.filterMap f).map g).sum = (xs.map fun x => (f x).elim 0 g).sum := by
  induction xs with
  | nil => rfl
  | cons x xs ih => cases h : f x <;> simp [h, ih]

def Dimension.offersSelection (d : Dimension) (tuple : Tuple) (register : Register) : Bool :=
  (tuple.selection? d.name register).any fun selection =>
    d.hasValue register selection.domain selection.value

theorem Dimension.offersSelection_of_ways_pos {d : Dimension} {tuple : Tuple}
    {register : Register} (h : 0 < d.ways tuple register) :
    d.offersSelection tuple register = true := by
  obtain ⟨selection, hselection, item, hitem, hregister, hdomain, hvalue, -⟩ :=
    ways_pos_iff.mp h
  rw [offersSelection, hselection, Option.any_some, d.hasValue_iff, d.mem_values]
  exact ⟨item, hitem, hregister, hdomain, hvalue⟩

namespace Config

variable {dimensions : List Dimension} {declared : List String} {conditions : List Condition}

def offersSelection (dimensions : List Dimension) (tuple : Tuple) (c : Condition) : Bool :=
  dimensions.any fun d => d.name == c.dimension && d.offersSelection tuple c.register

theorem offersSelection_eq (hnodup : (dimensions.map (·.name)).Nodup) {d : Dimension}
    (hd : d ∈ dimensions) {c : Condition} (hname : c.dimension = d.name) (tuple : Tuple) :
    offersSelection dimensions tuple c = d.offersSelection tuple c.register := by
  rw [offersSelection, Bool.eq_iff_iff, List.any_eq_true]
  constructor
  · rintro ⟨other, hother, hoffers⟩
    rw [Bool.and_eq_true, beq_iff_eq] at hoffers
    have heq : other = d :=
      List.inj_on_of_nodup_map hnodup hother hd (hoffers.1.trans hname)
    rw [← heq]
    exact hoffers.2
  · intro hoffers
    exact ⟨d, hd, by simp [hname, hoffers]⟩

theorem meets_narrow?_settled (h : WellDeclared dimensions declared)
    (conditions : List Condition) {d : Dimension} (hd : d ∈ dimensions) {item : Item}
    (hitem : item ∈ d.items) {c : Condition} (hc : c ∈ item.conditions) (tuple : Tuple) :
    (c.narrow? (available (settle declared conditions dimensions) d)).any tuple.meets =
      (tuple.meets c && offersSelection (settle declared conditions dimensions) tuple c) := by
  obtain ⟨other, hother, hname, domain, values, hdomains, hnarrow⟩ :=
    narrow?_settled h conditions hd hitem hc
  have hoffers := offersSelection_eq (wellDeclared_settle h conditions).nodup_names
    (settled_mem_settle h conditions hother) (hname.trans (Dimension.filter_name ..).symm) tuple
  have hleft : (settled declared conditions dimensions other).name = c.dimension :=
    (Dimension.filter_name ..).trans hname.symm
  rw [hnarrow, hoffers, Dimension.offersSelection, hleft, Option.any_map,
    Tuple.meets_of_single hdomains]
  have hnarrowed : ∀ common, tuple.meets { c with domains := .single domain common } =
      (tuple.selection? c.dimension c.register).any fun selection =>
        domain == selection.domain && common.contains selection.value :=
    fun common => Tuple.meets_of_single rfl tuple
  simp only [hnarrowed]
  cases tuple.selection? c.dimension c.register with
  | none => simp
  | some selection =>
      generalize settled declared conditions dimensions other = left
      simp only [Option.any_some]
      cases hdomain : domain == selection.domain with
      | false => cases Domains.shared? values (left.values c.register domain) <;> simp
      | true =>
          have hshared := Domains.any_shared? values (left.values c.register domain)
            selection.value
          have hvalue : left.hasValue c.register selection.domain selection.value =
              (left.values c.register domain).contains selection.value := by
            rw [beq_iff_eq.mp hdomain, Bool.eq_iff_iff, left.hasValue_iff, List.contains_iff_mem]
          simp only [Bool.true_and, hvalue, hshared, Bool.and_comm]

/--
A selection keeps the ways of items whose conditions are about what is still
offered, unless a filter rules it out.
-/
theorem ways_settled (h : WellDeclared dimensions declared) {d : Dimension}
    (hd : d ∈ dimensions) {tuple : Tuple} {register : Register} {selection : Selection}
    (hselection : tuple.selection? d.name register = some selection) :
    (settled declared conditions dimensions d).ways tuple register =
      if tuple.meetsAt register (conditions.filter fun c => c.dimension = d.name) = true
      then (d.items.map fun item =>
        if item.conditions.all
          (offersSelection (settle declared conditions dimensions) tuple) = true
        then item.ways tuple register selection
        else 0).sum
      else 0 := by
  have hnames : ∀ c ∈ conditions.filter fun c => c.dimension = d.name, c.dimension = d.name := by
    intro c hc
    rw [List.mem_filter, decide_eq_true_eq] at hc
    exact hc.2
  have hitem : ∀ item ∈ d.items, _ := fun item hitem =>
    Item.ways_restrictAll?_narrow? hnames hselection fun c hc =>
      meets_narrow?_settled h conditions hd hitem hc tuple
  rw [Dimension.ways, settled, Dimension.filter_name, hselection, Dimension.filter_eq]
  simp only [sum_map_filterMap]
  rw [List.map_congr_left hitem]
  split
  · rfl
  · simp

theorem ways_settled_le (h : WellDeclared dimensions declared) {d : Dimension}
    (hd : d ∈ dimensions) (tuple : Tuple) (register : Register) :
    (settled declared conditions dimensions d).ways tuple register ≤ d.ways tuple register := by
  cases hselection : tuple.selection? d.name register with
  | none => simp [Dimension.ways, settled, hselection]
  | some selection =>
      rw [ways_settled h hd hselection, Dimension.ways, hselection]
      split
      · apply List.sum_le_sum
        intro item _
        split
        · exact Nat.le_refl _
        · exact Nat.zero_le _
      · exact Nat.zero_le _

theorem meets_of_ways_settled_pos (h : WellDeclared dimensions declared) {d : Dimension}
    (hd : d ∈ dimensions) {tuple : Tuple} {register : Register}
    (hpos : 0 < (settled declared conditions dimensions d).ways tuple register)
    {filter : Condition} (hfilter : filter ∈ conditions) (hname : filter.dimension = d.name)
    (hregister : filter.register = register) : tuple.meets filter = true := by
  cases hselection : tuple.selection? d.name register with
  | none => simp [Dimension.ways, settled, hselection] at hpos
  | some selection =>
      rw [ways_settled h hd hselection] at hpos
      split at hpos
      · next hmet =>
          have hmem : filter ∈ conditions.filter fun c => c.dimension = d.name :=
            List.mem_filter.mpr ⟨hfilter, by simpa using hname⟩
          have hat := List.all_eq_true.mp hmet filter hmem
          simpa [hregister] using hat
      · exact absurd hpos (Nat.lt_irrefl 0)

theorem offersSelection_settle (h : WellDeclared dimensions declared) {tuple : Tuple}
    {c : Condition} (hc : c.Grounded dimensions)
    (hpos : ∀ other ∈ dimensions, c.dimension = other.name → ∀ register ∈ other.registers,
      0 < (settled declared conditions dimensions other).ways tuple register) :
    offersSelection (settle declared conditions dimensions) tuple c = true := by
  obtain ⟨other, hother, hname, domain, values, -, hdomain, -⟩ := hc
  obtain ⟨offering, hoffering, hregister, -⟩ := other.hasDomain_iff.mp hdomain
  have hmem : c.register ∈ other.registers :=
    other.mem_registers.mpr ⟨offering, hoffering, hregister⟩
  rw [offersSelection_eq (wellDeclared_settle h conditions).nodup_names
    (settled_mem_settle h conditions hother) (hname.trans (Dimension.filter_name ..).symm)]
  exact Dimension.offersSelection_of_ways_pos (hpos other hother hname c.register hmem)

theorem ways_settled_eq (h : WellDeclared dimensions declared) {tuple : Tuple}
    (hmeets : ∀ filter ∈ conditions, tuple.meets filter = true)
    (hpos : ∀ d ∈ dimensions, ∀ register ∈ d.registers, 0 < d.ways tuple register)
    {d : Dimension} (hd : d ∈ dimensions) (register : Register) :
    (settled declared conditions dimensions d).ways tuple register = d.ways tuple register := by
  revert register
  apply h.induction_on_depends ?_ hd
  -- Conditions are about dimensions whose ways are kept by induction.
  intro d hd ih register
  have hoffers : ∀ item ∈ d.items, ∀ c ∈ item.conditions,
      offersSelection (settle declared conditions dimensions) tuple c = true := by
    intro item hitem c hc
    apply offersSelection_settle h (h.grounded d hd item hitem c hc)
    intro other hother hname slot hmem
    rw [ih other hother (hname ▸ h.mem_depends d hd item hitem c hc) slot]
    exact hpos other hother slot hmem
  cases hselection : tuple.selection? d.name register with
  | none => simp [Dimension.ways, settled, hselection]
  | some selection =>
      have hall : tuple.meetsAt register
          (conditions.filter fun c => c.dimension = d.name) = true := by
        apply List.all_eq_true.mpr
        intro filter hfilter
        simp [hmeets filter (List.mem_of_mem_filter hfilter)]
      rw [ways_settled h hd hselection, if_pos hall, Dimension.ways, hselection]
      refine congrArg List.sum (List.map_congr_left fun item hitem => ?_)
      exact if_pos (List.all_eq_true.mpr (hoffers item hitem))

end Config

end Variants
