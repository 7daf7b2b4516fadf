import Variants.Proofs.RemainingWays
import Variants.Proofs.Rendering
import Variants.Proofs.Resolution

/-!
# Exactness of filtering

Where a filter leaves each dimension all of its registers, the tuples left are
those that meet the filter, as often as before.  A generated tuple that meets
the filter sees to that, and the products stay the same as well.  A dimension
that loses a register is set in fewer registers from then on, so nothing that
is generated afterwards was generated before.
-/

namespace Variants

namespace Config

/-! ## Filtered dimensions -/

/-- What a filter does to the dimensions, as far as tuples can tell. -/
structure Sifts (dimensions : List Dimension) (conditions : List Condition)
    (left : Dimension → Dimension) : Prop where
  name_eq : ∀ d, (left d).name = d.name
  brackets_eq : ∀ d, (left d).brackets = d.brackets
  registers_subset : ∀ d ∈ dimensions, (left d).registers ⊆ d.registers
  ways_le : ∀ d ∈ dimensions, ∀ tuple register,
    (left d).ways tuple register ≤ d.ways tuple register
  meets : ∀ d ∈ dimensions, ∀ tuple register, 0 < (left d).ways tuple register →
    ∀ c ∈ conditions, c.dimension = d.name → c.register = register → tuple.meets c = true
  ways_eq : ∀ tuple, (∀ c ∈ conditions, tuple.meets c = true) →
    (∀ d ∈ dimensions, ∀ register ∈ d.registers, 0 < d.ways tuple register) →
      ∀ d ∈ dimensions, ∀ register, (left d).ways tuple register = d.ways tuple register

variable {dimensions : List Dimension} {declared : List String} {conditions : List Condition}

theorem sifts_id (dimensions : List Dimension) : Sifts dimensions [] id where
  name_eq := fun _ => rfl
  brackets_eq := fun _ => rfl
  registers_subset := fun _ _ => List.Subset.refl _
  ways_le := fun _ _ _ _ => Nat.le_refl _
  meets := fun _ _ _ _ _ _ hc => absurd hc List.not_mem_nil
  ways_eq := fun _ _ _ _ _ _ => rfl

theorem sifts_settled (h : WellDeclared dimensions declared) (conditions : List Condition) :
    Sifts dimensions conditions (settled declared conditions dimensions) where
  name_eq := fun _ => Dimension.filter_name ..
  brackets_eq := fun _ => Dimension.filter_brackets ..
  registers_subset := fun d _ => (within_settled declared conditions dimensions d).registers_subset
  ways_le := fun _ hd tuple register => ways_settled_le h hd tuple register
  meets := fun _ hd _ _ hpos _ hc hname hregister =>
    meets_of_ways_settled_pos h hd hpos hc hname hregister
  ways_eq := fun _ hmeets hpos _ hd register => ways_settled_eq h hmeets hpos hd register

theorem exists_sifts {config : Config} (h : WellDeclared config.dimensions config.declared)
    (conditions : List Condition) :
    ∃ left, Sifts config.dimensions conditions left ∧
      (config.applyFilters conditions).dimensions = config.dimensions.map left := by
  cases conditions with
  | nil => exact ⟨id, sifts_id _, (List.map_id _).symm⟩
  | cons first rest =>
      exact ⟨_, sifts_settled h (first :: rest), settle_eq_map h (first :: rest)⟩

def KeepsRegisters (config filtered : Config) : Prop :=
  ∀ d ∈ config.dimensions, ∀ left ∈ filtered.dimensions, left.name = d.name →
    ∀ register, register ∈ left.registers ↔ register ∈ d.registers

/-! ## Under a filter that keeps the registers -/

section Kept

variable {config filtered : Config} {left : Dimension → Dimension}
  (hsifts : Sifts config.dimensions conditions left)
  (hfiltered : filtered.dimensions = config.dimensions.map left)

include hsifts hfiltered

theorem keepsRegisters_iff (h : WellDeclared config.dimensions config.declared) :
    config.KeepsRegisters filtered ↔
      ∀ d ∈ config.dimensions, ∀ register,
        register ∈ (left d).registers ↔ register ∈ d.registers := by
  constructor
  · intro hkeeps d hd
    refine hkeeps d hd (left d) ?_ (hsifts.name_eq d)
    rw [hfiltered]
    exact List.mem_map_of_mem hd
  · intro hkeeps d hd other hother hname
    rw [hfiltered] at hother
    obtain ⟨source, hsource, rfl⟩ := List.mem_map.mp hother
    rw [h.eq_of_name_eq hd hsource (hname.symm.trans (hsifts.name_eq source))]
    exact hkeeps source hsource

variable (hkeeps : ∀ d ∈ config.dimensions, ∀ register,
  register ∈ (left d).registers ↔ register ∈ d.registers)

include hkeeps

theorem covers_filtered_iff (tuple : Tuple) :
    filtered.Covers tuple ↔ config.Covers tuple := by
  have hnames : ∀ name, (∃ d ∈ filtered.dimensions, d.name = name) ↔
      ∃ d ∈ config.dimensions, d.name = name := by
    simp [hfiltered, hsifts.name_eq]
  have hcovers : ∀ d ∈ config.dimensions, ∀ fragment,
      (left d).Covers fragment ↔ d.Covers fragment :=
    fun d hd fragment => Dimension.covers_iff_of_registers (hkeeps d hd) fragment
  constructor
  · intro h
    refine ⟨fun name => (h.mem_keys_iff name).trans (hnames name), ?_⟩
    intro d hd fragment hfragment
    rw [← hcovers d hd]
    apply h.covers
    · rw [hfiltered]
      exact List.mem_map_of_mem hd
    · rw [hsifts.name_eq]
      exact hfragment
  · intro h
    refine ⟨fun name => (h.mem_keys_iff name).trans (hnames name).symm, ?_⟩
    intro other hother fragment hfragment
    rw [hfiltered] at hother
    obtain ⟨d, hd, rfl⟩ := List.mem_map.mp hother
    rw [hsifts.name_eq] at hfragment
    exact (hcovers d hd fragment).mpr (h.covers d hd fragment hfragment)

omit hsifts in
theorem ways_filtered_pos_iff {tuple : Tuple} :
    0 < filtered.ways tuple ↔
      ∀ d ∈ config.dimensions, ∀ register ∈ d.registers, 0 < (left d).ways tuple register := by
  rw [ways_pos_iff, hfiltered, List.forall_mem_map]
  refine forall₂_congr fun d hd => forall_congr' fun register => ?_
  rw [hkeeps d hd]

theorem ways_filtered_eq {tuple : Tuple} (hmeets : ∀ c ∈ conditions, tuple.meets c = true) :
    filtered.ways tuple = config.ways tuple := by
  by_cases hpos : 0 < config.ways tuple
  · have hways := hsifts.ways_eq tuple hmeets (ways_pos_iff.mp hpos)
    rw [ways, ways, hfiltered, List.map_map]
    refine congrArg List.prod (List.map_congr_left fun d hd => ?_)
    have hperm : (left d).registers.Perm d.registers :=
      (List.perm_ext_iff_of_nodup (left d).nodup_registers d.nodup_registers).mpr (hkeeps d hd)
    have hmap : (left d).registers.map ((left d).ways tuple) =
        (left d).registers.map (d.ways tuple) :=
      List.map_congr_left fun register _ => hways d hd register
    rw [Function.comp_apply, hmap]
    exact (hperm.map _).prod_eq
  · have hleft : ¬0 < filtered.ways tuple := by
      intro hleft
      apply hpos
      rw [ways_pos_iff]
      intro d hd register hregister
      have hway := (ways_filtered_pos_iff hfiltered hkeeps).mp hleft d hd register hregister
      exact Nat.lt_of_lt_of_le hway (hsifts.ways_le d hd tuple register)
    omega

theorem countP_generate_filtered (h : WellDeclared config.dimensions config.declared)
    (hleft : WellDeclared filtered.dimensions filtered.declared)
    (hconditions : ∀ c ∈ conditions, ∃ d ∈ config.dimensions,
      c.dimension = d.name ∧ c.register ∈ d.registers) (tuple : Tuple) :
    filtered.generate.countP (·.same tuple) =
      if conditions.all tuple.meets = true then config.generate.countP (·.same tuple) else 0 := by
  have hcovers := covers_filtered_iff hsifts hfiltered hkeeps tuple
  by_cases hcovered : config.Covers tuple
  · rw [countP_generate_of_covers hleft (hcovers.mpr hcovered),
      countP_generate_of_covers h hcovered]
    split
    · next hall =>
        exact ways_filtered_eq hsifts hfiltered hkeeps (List.all_eq_true.mp hall)
    · next hall =>
        -- A condition that is not met leaves no way to select in its register.
        by_contra hne
        apply hall
        rw [List.all_eq_true]
        intro c hc
        obtain ⟨d, hd, hname, hregister⟩ := hconditions c hc
        have hpos := (ways_filtered_pos_iff hfiltered hkeeps).mp (Nat.pos_of_ne_zero hne)
        exact hsifts.meets d hd tuple c.register (hpos d hd c.register hregister) c hc hname rfl
  · rw [countP_generate_of_not_covers hleft (fun hleft => hcovered (hcovers.mp hleft)),
      countP_generate_of_not_covers h hcovered, ite_self]

end Kept

/-! ## Filters of a configuration -/

theorem countP_filter_meets (tuples : List Tuple) (conditions : List Condition) (tuple : Tuple) :
    (tuples.filter fun source => conditions.all source.meets).countP (·.same tuple) =
      if conditions.all tuple.meets = true then tuples.countP (·.same tuple) else 0 := by
  have hmeets : ∀ source : Tuple, source.same tuple = true →
      conditions.all source.meets = conditions.all tuple.meets := by
    intro source hsame
    congr 1
    funext c
    exact Tuple.meets_of_same hsame c
  rw [List.countP_filter]
  split
  · next hall =>
      refine List.countP_congr fun source _ => ?_
      rw [Bool.and_eq_true]
      exact ⟨And.left, fun hsame => ⟨hsame, (hmeets source hsame).trans hall⟩⟩
  · next hall =>
      apply List.countP_eq_zero.mpr
      intro source _ hboth
      rw [Bool.and_eq_true] at hboth
      exact hall ((hmeets source hboth.1).symm.trans hboth.2)

section Resolved

variable {config : Config} (h : config.Reachable) {filters : List String}
  (hconditions : Expression.filtersConditions config.dimensions filters = .ok conditions)

include h hconditions

theorem wellDeclared_of_resolved :
    WellDeclared (config.applyFilters conditions).dimensions
      (config.applyFilters conditions).declared :=
  (h.of_filter (filter_eq_ok_iff.mpr ⟨conditions, hconditions, rfl⟩)).wellDeclared

theorem countP_generate_of_keepsRegisters
    (hkeeps : config.KeepsRegisters (config.applyFilters conditions)) (tuple : Tuple) :
    (config.applyFilters conditions).generate.countP (·.same tuple) =
      (config.generate.filter fun source => conditions.all source.meets).countP
        (·.same tuple) := by
  obtain ⟨left, hsifts, hfiltered⟩ := exists_sifts h.wellDeclared conditions
  rw [countP_filter_meets]
  exact countP_generate_filtered hsifts hfiltered
    ((keepsRegisters_iff hsifts hfiltered h.wellDeclared).mp hkeeps) h.wellDeclared
    (wellDeclared_of_resolved h hconditions)
    (fun c hc => Expression.exists_of_mem_filtersConditions h.wellDeclared.nodup_names
      hconditions hc) tuple

end Resolved

theorem keepsRegisters_of_meets {config : Config} (h : config.Reachable) {tuple : Tuple}
    (htuple : tuple ∈ config.generate) (hmeets : conditions.all tuple.meets = true) :
    config.KeepsRegisters (config.applyFilters conditions) := by
  obtain ⟨left, hsifts, hfiltered⟩ := exists_sifts h.wellDeclared conditions
  rw [keepsRegisters_iff hsifts hfiltered h.wellDeclared]
  intro d hd register
  refine ⟨fun hregister => hsifts.registers_subset d hd hregister, fun hregister => ?_⟩
  have hpos := ways_pos_iff.mp
    ((exists_generate_iff h.wellDeclared).mp ⟨tuple, htuple, Tuple.same_refl tuple⟩).2
  have hways := hsifts.ways_eq tuple (List.all_eq_true.mp hmeets) hpos d hd register
  have hleft : 0 < (left d).ways tuple register := by
    rw [hways]
    exact hpos d hd register hregister
  obtain ⟨-, -, item, hitem, hat, -⟩ := Dimension.ways_pos_iff.mp hleft
  exact (left d).mem_registers.mpr ⟨item, hitem, hat⟩

theorem alike_of_keepsRegisters {config : Config} (h : config.Reachable)
    (hkeeps : config.KeepsRegisters (config.applyFilters conditions)) :
    (config.applyFilters conditions).Alike config := by
  obtain ⟨left, hsifts, hfiltered⟩ := exists_sifts h.wellDeclared conditions
  have hregisters := (keepsRegisters_iff hsifts hfiltered h.wellDeclared).mp hkeeps
  refine ⟨?_, ?_, ?_⟩
  · rw [hfiltered, List.forall₂_map_left_iff, List.forall₂_same]
    intro d hd
    refine ⟨hsifts.name_eq d, hsifts.brackets_eq d, fun register => ?_⟩
    rw [Bool.eq_iff_iff, Dimension.hasRegister_iff, Dimension.hasRegister_iff,
      hregisters d hd]
  · cases conditions <;> rfl
  · intro node _ c _ tuple
    cases conditions <;> rfl

/--
If a generated tuple meets the filter, filtering leaves exactly the tuples that
meet it, each as often as before and with the same product.
-/
theorem filter_exact {config filtered : Config} {filters : List String} (h : config.Reachable)
    (hfilter : config.filter filters = .ok filtered) :
    ∃ conditions, Expression.filtersConditions config.dimensions filters = .ok conditions ∧
      ((∃ tuple ∈ config.generate, conditions.all tuple.meets = true) →
        (∀ tuple, filtered.generate.countP (·.same tuple) =
          (config.generate.filter fun source => conditions.all source.meets).countP
            (·.same tuple)) ∧
        ∀ tuple other, tuple.same other = true →
          filtered.render tuple = config.render other) := by
  obtain ⟨conditions, hconditions, rfl⟩ := filter_eq_ok_iff.mp hfilter
  refine ⟨conditions, hconditions, ?_⟩
  rintro ⟨tuple, htuple, hmeets⟩
  have hkeeps := keepsRegisters_of_meets h htuple hmeets
  constructor
  · intro target
    exact countP_generate_of_keepsRegisters h hconditions hkeeps target
  · intro source other hsame
    exact render_congr (alike_of_keepsRegisters h hkeeps) hsame

theorem filter_exact_stagedRegions :
    ∃ config filtered : Config, config.Reachable ∧ config.filter ["env=p2"] = .ok filtered ∧
      filtered.generate.countP (·.same (rackedVariant "p2")) = 2 ∧
      filtered.generate.countP (·.same (rackedVariant "p1")) = 0 ∧
      filtered.render (rackedVariant "p2") = config.render (rackedVariant "p2") := by
  have hparse : (parse .firstKey stagedRegions).toOption.any (fun config =>
      (Expression.filtersConditions config.dimensions ["env=p2"]).toOption.any fun conditions =>
        config.generate.any (fun tuple => conditions.all tuple.meets) &&
          (config.generate.filter fun source => conditions.all source.meets).countP
            (·.same (rackedVariant "p2")) == 2 &&
          (config.generate.filter fun source => conditions.all source.meets).countP
            (·.same (rackedVariant "p1")) == 0) = true := by
    decide +kernel
  obtain ⟨config, hconfig, hany⟩ := any_toOption_iff.mp hparse
  obtain ⟨conditions, hresolved, hchecks⟩ := any_toOption_iff.mp hany
  have hreachable : config.Reachable := .parsed hconfig
  have hfilter := filter_eq_ok_iff.mpr ⟨conditions, hresolved, rfl⟩
  simp only [Bool.and_eq_true, List.any_eq_true, beq_iff_eq] at hchecks
  obtain ⟨⟨hexists, htwo⟩, hzero⟩ := hchecks
  obtain ⟨found, hfound, hexact⟩ := filter_exact hreachable hfilter
  cases hresolved.symm.trans hfound
  obtain ⟨hcount, hrender⟩ := hexact hexists
  exact ⟨config, _, hreachable, hfilter, (hcount _).trans htwo, (hcount _).trans hzero,
    hrender _ _ (Tuple.same_refl _)⟩

/-! ## Where filtering adds nothing -/

theorem perm_map_chosen {tuples others : List Tuple}
    (h : ∀ tuple, tuples.countP (·.same tuple) = others.countP (·.same tuple)) :
    (tuples.map Tuple.chosen).Perm (others.map Tuple.chosen) := by
  classical
  have hcount : ∀ (list : List Tuple) (tuple : Tuple),
      (list.map Tuple.chosen).count tuple.chosen = list.countP (·.same tuple) := by
    intro list tuple
    rw [List.count_eq_countP, List.countP_map]
    refine List.countP_congr fun source _ => ?_
    rw [Tuple.same_iff, Function.comp_apply, beq_iff_eq, funext_iff]
  apply List.perm_iff_count.mpr
  intro chosen
  by_cases hmem : ∃ tuple : Tuple, tuple.chosen = chosen
  · obtain ⟨tuple, rfl⟩ := hmem
    rw [hcount, hcount, h]
  · have hnot : ∀ list : List Tuple, chosen ∉ list.map Tuple.chosen := by
      intro list hlist
      obtain ⟨tuple, -, heq⟩ := List.mem_map.mp hlist
      exact hmem ⟨tuple, heq⟩
    rw [List.count_eq_zero.mpr (hnot _), List.count_eq_zero.mpr (hnot _)]

theorem Covers.keepsRegisters {config filtered : Config} {tuple : Tuple}
    (h : config.Covers tuple) (hfiltered : filtered.Covers tuple) :
    config.KeepsRegisters filtered := by
  intro d hd left hleft hname register
  obtain ⟨fragment, hfragment, hcovers⟩ := h.exists_fragment hd
  obtain ⟨other, hother, hcovers'⟩ := hfiltered.exists_fragment hleft
  rw [hname, hfragment] at hother
  cases hother
  exact (hcovers'.2 register).symm.trans (hcovers.2 register)

/--
Filtering generates nothing new exactly if nothing is left at all or every
dimension keeps its registers.  The tuples do not become more then, and a
filter that none of them meets leaves none.
-/
theorem filter_monotone_iff {config filtered : Config} {filters : List String}
    (h : config.Reachable) (hfilter : config.filter filters = .ok filtered) :
    ((∀ tuple ∈ filtered.generate, ∃ source ∈ config.generate, source.same tuple = true) ↔
      filtered.generate = [] ∨ config.KeepsRegisters filtered) ∧
    (filtered.generate = [] ∨ config.KeepsRegisters filtered →
      filtered.generate.length ≤ config.generate.length ∧
      ∃ conditions, Expression.filtersConditions config.dimensions filters = .ok conditions ∧
        ((∀ tuple ∈ config.generate, conditions.all tuple.meets = false) →
          filtered.generate = [])) := by
  have hleft := (h.of_filter hfilter).wellDeclared
  obtain ⟨conditions, hconditions, rfl⟩ := filter_eq_ok_iff.mp hfilter
  have hperm := fun hkeeps =>
    perm_map_chosen (countP_generate_of_keepsRegisters h hconditions hkeeps)
  refine ⟨⟨fun hsubset => ?_, ?_⟩, ?_⟩
  · by_cases hnil : (config.applyFilters conditions).generate = []
    · exact .inl hnil
    · obtain ⟨tuple, htuple⟩ := List.exists_mem_of_ne_nil _ hnil
      obtain ⟨source, hsource, hsame⟩ := hsubset tuple htuple
      have hcovers := (covers_of_mem_generate h.wellDeclared hsource).of_same hsame
      exact .inr (hcovers.keepsRegisters (covers_of_mem_generate hleft htuple))
  · rintro (hnil | hkeeps) tuple htuple
    · rw [hnil] at htuple
      cases htuple
    · have hmem := (hperm hkeeps).mem_iff.mp (List.mem_map_of_mem htuple)
      obtain ⟨source, hsource, heq⟩ := List.mem_map.mp hmem
      exact ⟨source, List.mem_of_mem_filter hsource, Tuple.same_iff.mpr (congrFun heq)⟩
  · rintro (hnil | hkeeps)
    · rw [hnil]
      exact ⟨Nat.zero_le _, conditions, hconditions, fun _ => rfl⟩
    · have hlength := (hperm hkeeps).length_eq
      rw [List.length_map, List.length_map] at hlength
      refine ⟨?_, conditions, hconditions, fun hnone => ?_⟩
      · rw [hlength]
        exact List.length_filter_le _ _
      · have hfilter : (config.generate.filter fun source => conditions.all source.meets) = [] := by
          apply List.filter_eq_nil_iff.mpr
          intro tuple htuple
          simp [hnone tuple htuple]
        rw [hfilter] at hlength
        exact List.eq_nil_of_length_eq_zero hlength

theorem filter_monotone_iff_stagedRegions :
    ∃ config filtered : Config, config.Reachable ∧ config.filter ["env=p2"] = .ok filtered ∧
      filtered.generate ≠ [] ∧ config.KeepsRegisters filtered ∧
      filtered.generate.length ≤ config.generate.length := by
  have hparse : (parse .firstKey stagedRegions).toOption.any (fun config =>
      (config.filter ["env=p2"]).toOption.any fun filtered =>
        !filtered.generate.isEmpty && filtered.generate.all fun tuple =>
          config.generate.any fun source => source.same tuple) = true := by
    decide +kernel
  obtain ⟨config, hconfig, hany⟩ := any_toOption_iff.mp hparse
  obtain ⟨filtered, hfilter, hchecks⟩ := any_toOption_iff.mp hany
  simp only [Bool.and_eq_true, Bool.not_eq_true', List.isEmpty_eq_false_iff, List.all_eq_true,
    List.any_eq_true] at hchecks
  obtain ⟨hne, hsubset⟩ := hchecks
  have hreachable : config.Reachable := .parsed hconfig
  obtain ⟨hiff, hbounds⟩ := filter_monotone_iff hreachable hfilter
  have hkeeps := (hiff.mp hsubset).resolve_left hne
  exact ⟨config, filtered, hreachable, hfilter, hne, hkeeps, (hbounds (.inr hkeeps)).1⟩

/-- Without production there are no racks, so regions come without one, and in more tuples. -/
theorem filter_adds_tuples_stagedRegions :
    ∃ config filtered : Config, parse .firstKey stagedRegions = .ok config ∧
      config.filter ["env=dev"] = .ok filtered ∧
      config.generate.length = 4 ∧ filtered.generate.length = 6 ∧
      ∀ tuple ∈ filtered.generate, ∀ source ∈ config.generate, source.same tuple = false := by
  have hparse : (parse .firstKey stagedRegions).toOption.any (fun config =>
      (config.filter ["env=dev"]).toOption.any fun filtered =>
        decide (config.generate.length = 4 ∧ filtered.generate.length = 6 ∧
          ∀ tuple ∈ filtered.generate, ∀ source ∈ config.generate,
            source.same tuple = false)) = true := by
    decide +kernel
  obtain ⟨config, hconfig, hany⟩ := any_toOption_iff.mp hparse
  obtain ⟨filtered, hfilter, hdecide⟩ := any_toOption_iff.mp hany
  exact ⟨config, filtered, hconfig, hfilter, of_decide_eq_true hdecide⟩

end Config

end Variants
