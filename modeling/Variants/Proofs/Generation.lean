import Variants.Proofs.Fragments
import Variants.Proofs.GenerationOrder

/-!
# Exactness of generation

Generation tests conditions on a tuple that is not finished yet.  As every
dimension comes after those it depends on, the tests come out as they would on
the finished tuple.  So a tuple is generated as often as there are ways to pick
an item and a position for each of its selections, independently of each other.
-/

namespace Variants

namespace Config

variable {mode : Containment}

theorem chosen_of_mem_extend {order : List Dimension} {start tuple : Tuple}
    (h : tuple ∈ extend mode order start) {name : String} (hname : name ∉ order.map (·.name)) :
    tuple.chosen name = start.chosen name := by
  induction order generalizing start with
  | nil => rw [List.mem_singleton.mp h]
  | cons d rest ih =>
      obtain ⟨fragment, -, h⟩ := List.mem_flatMap.mp h
      rw [List.map_cons, List.mem_cons, not_or] at hname
      rw [ih h hname.2, Tuple.chosen_insert, if_neg (Ne.symm hname.1)]

/-- Conditions on dimensions that are set already come out as on the finished tuple. -/
theorem fragments_of_isReady {done rest : List Dimension} {d : Dimension}
    (hready : isReady done d = true)
    (hdepends : ∀ item ∈ d.items, ∀ c ∈ item.conditions, c.dimension ∈ d.depends)
    {tuple start : Tuple} (hdone : ∀ other ∈ done, other.name ∉ rest.map (·.name))
    (hstart : ∀ name ∉ rest.map (·.name), start.chosen name = tuple.chosen name) :
    d.fragments mode start.toContext = d.fragments mode tuple.toContext := by
  refine Dimension.fragments_congr fun item hitem => ?_
  refine Bool.eq_iff_iff.mpr ?_
  simp only [allHold, List.all_eq_true]
  refine forall₂_congr fun c hc => ?_
  obtain ⟨other, hother, hname⟩ := isReady_iff.mp hready c.dimension (hdepends item hitem c hc)
  have hchosen := hstart other.name (hdone other hother)
  rw [hname] at hchosen
  rw [Condition.holdsIn_toContext, Condition.holdsIn_toContext, Tuple.selection?_eq_chosen,
    Tuple.selection?_eq_chosen, hchosen]

theorem countP_extend {done order : List Dimension} (horder : ReadyOrder done order)
    (hnodup : ((done ++ order).map (·.name)).Nodup)
    (hdepends : ∀ d ∈ order, ∀ item ∈ d.items, ∀ c ∈ item.conditions, c.dimension ∈ d.depends)
    {tuple start : Tuple}
    (hstart : ∀ name ∉ order.map (·.name), start.chosen name = tuple.chosen name) :
    (extend mode order start).countP (·.same tuple) =
      (order.map fun d => d.matching mode tuple).prod := by
  induction order generalizing done start with
  | nil =>
      have hsame : start.same tuple = true :=
        Tuple.same_iff.mpr fun name => hstart name List.not_mem_nil
      simp [extend, hsame]
  | cons d rest ih =>
      obtain ⟨hready, hrest⟩ := horder
      have hsplit := hnodup
      rw [List.map_append, List.map_cons] at hsplit
      obtain ⟨-, hlater, hdisjoint⟩ := List.nodup_append.mp hsplit
      have hfresh := (List.nodup_cons.mp hlater).1
      have hdone : ∀ other ∈ done, other.name ∉ (d :: rest).map (·.name) :=
        fun other hother hmem =>
          hdisjoint other.name (List.mem_map_of_mem hother) other.name hmem rfl
      have hstep : ∀ fragment,
          (extend mode rest (start.insert d.name fragment)).countP (·.same tuple) =
            if (tuple.get? d.name).any fragment.sameEntries = true
            then (rest.map fun d => d.matching mode tuple).prod
            else 0 := by
        intro fragment
        split
        · next hmatch =>
            refine ih hrest (by simpa using hnodup)
              (fun other hother => hdepends other (List.mem_cons_of_mem _ hother)) ?_
            intro name hname
            rw [Tuple.chosen_insert]
            split
            · next heq => rw [← heq, Dimension.any_sameEntries_iff.mp hmatch]
            · next hne =>
                refine hstart name fun hmem => ?_
                rcases List.mem_cons.mp hmem with heq | hmem
                · exact hne heq.symm
                · exact hname hmem
        · next hmatch =>
            refine List.countP_eq_zero.mpr fun generated hgenerated hsame => hmatch ?_
            rw [Dimension.any_sameEntries_iff, ← Tuple.same_iff.mp hsame d.name,
              chosen_of_mem_extend hgenerated hfresh, Tuple.chosen_insert, if_pos rfl]
      rw [extend, fragments_of_isReady hready (hdepends d List.mem_cons_self) hdone hstart,
        List.countP_flatMap, List.map_cons, List.prod_cons, Dimension.matching, ← sum_map_ite]
      exact congrArg List.sum (List.map_congr_left fun fragment _ => hstep fragment)

/-! ## Generated tuples -/

def ways (config : Config) (tuple : Tuple) : Nat :=
  (config.dimensions.map fun d => (d.registers.map (d.ways tuple)).prod).prod

/-- The tuple has the dimensions of the configuration, and for each one its registers. -/
structure Covers (config : Config) (tuple : Tuple) : Prop where
  mem_keys_iff : ∀ name, name ∈ tuple.keys ↔ ∃ d ∈ config.dimensions, d.name = name
  covers : ∀ d ∈ config.dimensions, ∀ fragment, tuple.get? d.name = some fragment →
    d.Covers fragment

theorem Covers.exists_fragment {config : Config} {tuple : Tuple} (h : config.Covers tuple)
    {d : Dimension} (hd : d ∈ config.dimensions) :
    ∃ fragment, tuple.get? d.name = some fragment ∧ d.Covers fragment := by
  have hmem : d.name ∈ tuple.keys := (h.mem_keys_iff d.name).mpr ⟨d, hd, rfl⟩
  obtain ⟨fragment, hfragment⟩ := OrderedMap.mem_keys_iff.mp hmem
  exact ⟨fragment, hfragment, h.covers d hd fragment hfragment⟩

theorem countP_generate {config : Config} (h : WellDeclared config.dimensions config.declared)
    {tuple : Tuple} (htuple : ∀ name ∈ tuple.keys, ∃ d ∈ config.dimensions, d.name = name) :
    config.generate.countP (·.same tuple) =
      (config.dimensions.map fun d => d.matching config.containment tuple).prod := by
  obtain ⟨hperm, hready⟩ := generationOrder_spec h
  have hnames := hperm.map (·.name)
  rw [generate, countP_extend hready (hnames.nodup_iff.mpr h.nodup_names)
    (fun d hd => h.mem_depends d (hperm.mem_iff.mp hd))]
  · exact (hperm.map fun d => d.matching config.containment tuple).prod_eq
  · intro name hname
    rw [Tuple.chosen_empty, eq_comm, ← Option.not_isSome_iff_eq_none, Tuple.chosen_isSome_iff]
    intro hmem
    obtain ⟨d, hd, heq⟩ := htuple name hmem
    exact hname (hnames.mem_iff.mpr (List.mem_map.mpr ⟨d, hd, heq⟩))

theorem covers_of_mem_generate {config : Config}
    (h : WellDeclared config.dimensions config.declared) {tuple : Tuple}
    (htuple : tuple ∈ config.generate) : config.Covers tuple := by
  obtain ⟨hperm, -⟩ := generationOrder_spec h
  have hkeys : ∀ name ∈ tuple.keys, ∃ d ∈ config.dimensions, d.name = name := by
    intro name hmem
    by_contra hnone
    have hfresh : name ∉ config.generationOrder.map (·.name) := by
      intro hname
      obtain ⟨d, hd, heq⟩ := List.mem_map.mp hname
      exact hnone ⟨d, hperm.mem_iff.mp hd, heq⟩
    rw [← Tuple.chosen_isSome_iff, chosen_of_mem_extend htuple hfresh] at hmem
    cases hmem
  -- The tuple is counted among its own occurrences, so each dimension has a match.
  have hpos : 0 < config.generate.countP (·.same tuple) :=
    List.countP_pos_iff.mpr ⟨tuple, htuple, Tuple.same_refl tuple⟩
  rw [countP_generate h hkeys, List.prod_pos_iff_forall_pos_nat, List.forall_mem_map] at hpos
  refine ⟨fun name => ⟨hkeys name, ?_⟩, fun d hd fragment hfragment => ?_⟩
  · rintro ⟨d, hd, rfl⟩
    obtain ⟨fragment, hfragment, -⟩ := Dimension.covers_of_matching_pos (hpos d hd)
    exact OrderedMap.mem_keys_iff.mpr ⟨fragment, hfragment⟩
  · obtain ⟨other, hother, hcovers⟩ := Dimension.covers_of_matching_pos (hpos d hd)
    cases hfragment.symm.trans hother
    exact hcovers

theorem Covers.of_same {config : Config} {a b : Tuple} (h : config.Covers a)
    (hsame : a.same b = true) : config.Covers b := by
  have hchosen := Tuple.same_iff.mp hsame
  refine ⟨fun name => ?_, fun d hd fragment hfragment => ?_⟩
  · rw [← h.mem_keys_iff, ← Tuple.chosen_isSome_iff, ← Tuple.chosen_isSome_iff, hchosen]
  · have hother := hchosen d.name
    rw [Tuple.chosen, Tuple.chosen, hfragment] at hother
    obtain ⟨source, hsource, heq⟩ := Option.map_eq_some_iff.mp hother
    exact (h.covers d hd source hsource).congr (congrFun heq)

theorem countP_generate_of_covers {config : Config}
    (h : WellDeclared config.dimensions config.declared) {tuple : Tuple}
    (hcovers : config.Covers tuple) :
    config.generate.countP (·.same tuple) = config.ways tuple := by
  rw [countP_generate h fun name => (hcovers.mem_keys_iff name).mp, ways]
  refine congrArg List.prod (List.map_congr_left fun d hd => ?_)
  obtain ⟨fragment, hfragment, hcovered⟩ := hcovers.exists_fragment hd
  refine Dimension.matching_eq_prod_ways hfragment hcovered ?_
  intro item hitem c hc
  obtain ⟨-, -, -, domain, values, hdomains, -⟩ := h.grounded d hd item hitem c hc
  exact ⟨domain, values, hdomains⟩

theorem exists_generate_iff {config : Config}
    (h : WellDeclared config.dimensions config.declared) {tuple : Tuple} :
    (∃ generated ∈ config.generate, generated.same tuple = true) ↔
      config.Covers tuple ∧ 0 < config.ways tuple := by
  constructor
  · rintro ⟨generated, hgenerated, hsame⟩
    have hcovers := (covers_of_mem_generate h hgenerated).of_same hsame
    rw [← countP_generate_of_covers h hcovers, List.countP_pos_iff]
    exact ⟨hcovers, generated, hgenerated, hsame⟩
  · rintro ⟨hcovers, hpos⟩
    rw [← countP_generate_of_covers h hcovers, List.countP_pos_iff] at hpos
    exact hpos

theorem countP_generate_of_not_covers {config : Config}
    (h : WellDeclared config.dimensions config.declared) {tuple : Tuple}
    (hcovers : ¬config.Covers tuple) : config.generate.countP (·.same tuple) = 0 := by
  apply List.countP_eq_zero.mpr
  intro generated hgenerated hsame
  exact hcovers ((exists_generate_iff h).mp ⟨generated, hgenerated, hsame⟩).1

theorem ways_pos_iff {config : Config} {tuple : Tuple} :
    0 < config.ways tuple ↔
      ∀ d ∈ config.dimensions, ∀ register ∈ d.registers, 0 < d.ways tuple register := by
  simp only [ways, List.prod_pos_iff_forall_pos_nat, List.forall_mem_map]

/--
Generation is exact: the tuples are those over the dimensions and registers at
hand whose every selection comes from an item that counts for the whole tuple,
once for every way to pick such items and positions.
-/
theorem generate_exact {config : Config} (h : config.Reachable) (tuple : Tuple) :
    ((∃ generated ∈ config.generate, generated.same tuple = true) ↔
      config.Covers tuple ∧ ∀ d ∈ config.dimensions, ∀ register ∈ d.registers,
        ∃ selection, tuple.selection? d.name register = some selection ∧ ∃ item ∈ d.items,
          item.register = register ∧ item.domain = selection.domain ∧
            selection.value ∈ item.values ∧ ∀ c ∈ item.conditions, tuple.meets c = true) ∧
      (config.Covers tuple → config.generate.countP (·.same tuple) = config.ways tuple) ∧
      ((∃ d ∈ config.dimensions, d.items = []) → config.generate = []) ∧
      (config.dimensions = [] → config.generate = [OrderedMap.empty]) := by
  have hwell := h.wellDeclared
  refine ⟨?_, countP_generate_of_covers hwell, ?_, ?_⟩
  · rw [exists_generate_iff hwell, ways_pos_iff]
    simp only [Dimension.ways_pos_iff]
  · rintro ⟨d, hd, hitems⟩
    refine List.eq_nil_iff_forall_not_mem.mpr fun generated hgenerated => ?_
    have hcovers := covers_of_mem_generate hwell hgenerated
    obtain ⟨_, _, hcovered⟩ := hcovers.exists_fragment hd
    exact hcovered.1 hitems
  · intro hnil
    obtain ⟨hperm, -⟩ := generationOrder_spec hwell
    rw [hnil] at hperm
    rw [generate, hperm.eq_nil]
    rfl

def rackedVariant (stage : String) : Tuple :=
  .ofList
    [("env", .ofList [(⟨0⟩, ⟨"prod", stage⟩)]),
      ("region", .ofList [(⟨0⟩, ⟨"us", "nyc"⟩), (⟨1⟩, ⟨"rack", "r1"⟩)])]

theorem generate_exact_stagedRegions :
    ∃ config : Config, config.Reachable ∧ config.Covers (rackedVariant "p1") ∧
      config.generate.countP (·.same (rackedVariant "p1")) = 2 := by
  have hparse : (parse .allKeys stagedRegions).toOption.any (fun config =>
      decide (∃ generated ∈ config.generate, generated.same (rackedVariant "p1") = true) &&
        config.ways (rackedVariant "p1") == 2) = true := by
    decide +kernel
  obtain ⟨config, hconfig, hdecide⟩ := any_toOption_iff.mp hparse
  rw [Bool.and_eq_true, decide_eq_true_eq, beq_iff_eq] at hdecide
  have hreachable : config.Reachable := .parsed hconfig
  obtain ⟨hmem, hcount, -⟩ := generate_exact hreachable (rackedVariant "p1")
  have hcovers := (hmem.mp hdecide.1).1
  exact ⟨config, hreachable, hcovers, (hcount hcovers).trans hdecide.2⟩

end Config

end Variants
