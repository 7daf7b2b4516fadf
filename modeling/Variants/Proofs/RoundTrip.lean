import Variants.Proofs.Filtering
import Variants.Proofs.Pinning

/-!
# Tuples as filters

A generated tuple, written as filters and read back, selects itself exactly if
its text is representable.  Each of its filters then resolves to conditions that
pin one fragment down, so what is left after filtering are the copies of the
tuple.  Otherwise a filter is rejected, or it asks for a selection that the tuple
does not have.
-/

namespace Variants

/-! ## The filters of a tuple -/

namespace Tuple

def Representable (tuple : Tuple) : Prop :=
  ∀ entry ∈ tuple.entries, ∀ set ∈ entry.2.entries, set.2.Representable

instance (tuple : Tuple) : Decidable tuple.Representable :=
  inferInstanceAs (Decidable (∀ entry ∈ tuple.entries, ∀ set ∈ entry.2.entries, _))

variable {tuple : Tuple}

theorem selection?_eq_some_iff {name : String} {register : Register} {selection : Selection} :
    tuple.selection? name register = some selection ↔
      ∃ fragment, (name, fragment) ∈ tuple.entries ∧
        fragment.get? register = some selection := by
  simp only [selection?, Option.bind_eq_some_iff, OrderedMap.get?_eq_some_iff]

end Tuple

theorem toList_filter (name expression : String) :
    s!"{name}={expression}".toList = name.toList ++ '=' :: expression.toList := by
  simp [ToString.toString]

theorem Expression.splitFilter?_eq_some {name expression : String} (hname : name.toList ≠ [])
    (hequals : '=' ∉ name.toList) (hexpression : expression.toList ≠ []) :
    splitFilter? s!"{name}={expression}" = some (name, expression.toList) := by
  rw [splitFilter?, toList_filter, Text.splitOnce_append_cons hequals]
  simp [hname, hexpression]

namespace Config

variable {config : Config} {tuple : Tuple}

section Filters

variable (h : config.Reachable) (htuple : tuple ∈ config.generate)

include h htuple

theorem exists_of_mem_entries {name : String} {fragment : Fragment}
    (hmem : (name, fragment) ∈ tuple.entries) :
    ∃ d ∈ config.dimensions, d.name = name ∧ tuple.get? d.name = some fragment ∧
      fragment.keys ≠ [] ∧ ∀ register selection, fragment.get? register = some selection →
        d.hasValue register selection.domain selection.value = true := by
  have hget := OrderedMap.get?_eq_some_iff.mpr hmem
  have hcovers := covers_of_mem_generate h.wellDeclared htuple
  obtain ⟨d, hd, rfl⟩ := (hcovers.mem_keys_iff name).mp (OrderedMap.mem_keys_iff.mpr ⟨_, hget⟩)
  obtain ⟨hitems, hkeys⟩ := hcovers.covers d hd fragment hget
  refine ⟨d, hd, rfl, hget, ?_, fun register selection hset => ?_⟩
  · obtain ⟨item, hitem⟩ := List.exists_mem_of_ne_nil _ hitems
    exact List.ne_nil_of_mem ((hkeys item.register).mpr (d.mem_registers.mpr ⟨item, hitem, rfl⟩))
  · have hregister := (hkeys register).mp (OrderedMap.mem_keys_iff.mpr ⟨selection, hset⟩)
    have hways := ((exists_generate_iff h.wellDeclared).mp
      ⟨tuple, htuple, Tuple.same_refl tuple⟩).2
    obtain ⟨found, hfound, item, hitem, hat, hdomain, hvalue, -⟩ :=
      Dimension.ways_pos_iff.mp (ways_pos_iff.mp hways d hd register hregister)
    rw [Tuple.selection?, hget, Option.bind_some, hset] at hfound
    cases hfound
    exact d.hasValue_iff.mpr (d.mem_values.mpr ⟨item, hitem, hat, hdomain, hvalue⟩)

theorem splitAll_text (hrepresentable : tuple.Representable) (hne : tuple.entries ≠ [])
    (hcomma : ∀ d ∈ config.dimensions, ',' ∉ d.name.toList) :
    (Text.splitAll ',' tuple.text.toList).map String.ofList = tuple.filters := by
  have hfilters : ∀ filter ∈ tuple.filters.map String.toList, ',' ∉ filter := by
    simp only [Tuple.filters, List.map_map, List.forall_mem_map]
    rintro ⟨name, fragment⟩ hmem
    obtain ⟨d, hd, rfl, -, -, hvalues⟩ := exists_of_mem_entries h htuple hmem
    have hexpression := Dimension.no_comma_of_representable (h.named d hd) hvalues
      fun register selection hset =>
        hrepresentable _ hmem _ (OrderedMap.get?_eq_some_iff.mp hset)
    rw [Function.comp_apply, toList_filter]
    simp [hcomma d hd, hexpression]
  have hfilters_ne : tuple.filters.map String.toList ≠ [] := by
    simpa [Tuple.filters] using hne
  have hsplit := List.splitOn_intercalate ',' hfilters hfilters_ne
  rw [Tuple.text, String.toList_intercalate, Text.splitAll_eq_splitOn]
  refine (congrArg (List.map String.ofList) hsplit).trans ?_
  simp [Function.comp_def]

variable (hequals : ∀ d ∈ config.dimensions, '=' ∉ d.name.toList)

include hequals

theorem filterConditions_eq_ok_iff_of_mem {d : Dimension} (hd : d ∈ config.dimensions)
    {fragment : Fragment} (hmem : (d.name, fragment) ∈ tuple.entries)
    {conditions : List Condition} :
    Expression.filterConditions config.dimensions s!"{d.name}={fragment.expression}" =
        .ok conditions ↔
      Expression.conditions d fragment.expression.toList = .ok conditions := by
  obtain ⟨-, -, -, -, hkeys, -⟩ := exists_of_mem_entries h htuple hmem
  have hexpression : fragment.expression.toList ≠ [] := by
    obtain ⟨register, hregister⟩ := List.exists_mem_of_ne_nil _ hkeys
    obtain ⟨selection, hselection⟩ := OrderedMap.mem_keys_iff.mp hregister
    refine List.ne_nil_of_mem (a := '.') (Fragment.mem_expression_of_mem hselection ?_)
    simp [Selection.text]
  have hsplit := Expression.splitFilter?_eq_some (h.named d hd).name_ne_nil (hequals d hd)
    hexpression
  rw [Expression.filterConditions_eq_ok_iff h.wellDeclared.nodup_names, hsplit]
  constructor
  · rintro ⟨other, hother, expression, heq, hconditions⟩
    simp only [Option.some.injEq, Prod.mk.injEq] at heq
    obtain ⟨hname, rfl⟩ := heq
    rwa [h.wellDeclared.eq_of_name_eq hd hother hname]
  · exact fun hconditions => ⟨d, hd, _, rfl, hconditions⟩

theorem representable_of_meets {conditions : List Condition}
    (hconditions : Expression.filtersConditions config.dimensions tuple.filters = .ok conditions)
    (hmeets : conditions.all tuple.meets = true) : tuple.Representable := by
  rintro ⟨name, fragment⟩ hmem ⟨register, selection⟩ hset
  obtain ⟨lists, hlists, rfl⟩ := map_eq_ok_iff.mp hconditions
  obtain ⟨d, hd, rfl, hget, -, hvalues⟩ := exists_of_mem_entries h htuple hmem
  have hlists := mapM_eq_ok_iff.mp hlists
  rw [Tuple.filters, List.forall₂_map_left_iff] at hlists
  obtain ⟨list, hlist, hresolved⟩ := exists_mem_of_forall₂ hlists.flip hmem
  refine Dimension.representable_of_meets (h.named d hd) hvalues hget
    ((filterConditions_eq_ok_iff_of_mem h htuple hequals hd hmem).mp hresolved)
    (fun c hc => ?_) (OrderedMap.get?_eq_some_iff.mpr hset)
  exact List.all_eq_true.mp hmeets c (List.mem_flatten_of_mem hlist hc)

theorem exists_filtersConditions_pin (hrepresentable : tuple.Representable) :
    ∃ conditions,
      Expression.filtersConditions config.dimensions tuple.filters = .ok conditions ∧
        ∀ c, c ∈ conditions ↔ ∃ name register selection,
          tuple.selection? name register = some selection ∧ c = .pin name register selection := by
  have hentry : ∀ entry ∈ tuple.entries, ∃ list,
      Expression.filterConditions config.dimensions s!"{entry.1}={entry.2.expression}" =
        .ok list ∧ ∀ c, c ∈ list ↔ ∃ register selection,
          entry.2.get? register = some selection ∧ c = .pin entry.1 register selection := by
    rintro ⟨name, fragment⟩ hmem
    obtain ⟨d, hd, rfl, -, -, hvalues⟩ := exists_of_mem_entries h htuple hmem
    obtain ⟨list, hlist, hpins⟩ := Dimension.exists_conditions_of_representable (h.named d hd)
      hvalues fun register selection hset =>
        hrepresentable _ hmem _ (OrderedMap.get?_eq_some_iff.mp hset)
    exact ⟨list, (filterConditions_eq_ok_iff_of_mem h htuple hequals hd hmem).mpr hlist, hpins⟩
  obtain ⟨lists, hlists⟩ := exists_forall₂_of_forall hentry
  refine ⟨lists.flatten, map_eq_ok_iff.mpr ⟨lists, ?_, rfl⟩, fun c => ?_⟩
  · rw [mapM_eq_ok_iff, Tuple.filters, List.forall₂_map_left_iff]
    exact hlists.imp fun _ _ => And.left
  · rw [List.mem_flatten]
    constructor
    · rintro ⟨list, hlist, hc⟩
      obtain ⟨⟨name, fragment⟩, hmem, -, hpins⟩ := exists_mem_of_forall₂ hlists hlist
      obtain ⟨register, selection, hget, hpin⟩ := (hpins c).mp hc
      exact ⟨name, register, selection,
        Tuple.selection?_eq_some_iff.mpr ⟨fragment, hmem, hget⟩, hpin⟩
    · rintro ⟨name, register, selection, hselection, hpin⟩
      obtain ⟨fragment, hmem, hget⟩ := Tuple.selection?_eq_some_iff.mp hselection
      obtain ⟨list, hlist, -, hpins⟩ := exists_mem_of_forall₂ hlists.flip hmem
      exact ⟨list, hlist, (hpins c).mpr ⟨register, selection, hget, hpin⟩⟩

end Filters

/-! ## What is left after filtering -/

theorem Covers.same_of_selection? {source : Tuple} (hsource : config.Covers source)
    (htuple : config.Covers tuple)
    (h : ∀ name register selection, tuple.selection? name register = some selection →
      source.selection? name register = some selection) : source.same tuple = true := by
  rw [Tuple.same_iff]
  intro name
  by_cases hname : ∃ d ∈ config.dimensions, d.name = name
  · obtain ⟨d, hd, rfl⟩ := hname
    obtain ⟨fragment, hfragment, -, hkeys⟩ := htuple.exists_fragment hd
    obtain ⟨other, hother, -, hothers⟩ := hsource.exists_fragment hd
    rw [Tuple.chosen, Tuple.chosen, hfragment, hother, Option.map_some, Option.map_some,
      Option.some.injEq]
    funext register
    cases hget : fragment.get? register with
    | none =>
        rw [OrderedMap.get?_eq_none_iff, hothers, ← hkeys]
        exact OrderedMap.get?_eq_none_iff.mp hget
    | some selection =>
        have hselection := h d.name register selection (by
          rw [Tuple.selection?, hfragment, Option.bind_some, hget])
        rwa [Tuple.selection?, hother, Option.bind_some] at hselection
  · have hnone : ∀ covered : Tuple, config.Covers covered → covered.chosen name = none := by
      intro covered hcovers
      rw [← Option.not_isSome_iff_eq_none, Tuple.chosen_isSome_iff, hcovers.mem_keys_iff]
      exact hname
    rw [hnone source hsource, hnone tuple htuple]

theorem exists_generate_applyFilters_iff (h : config.Reachable) (htuple : tuple ∈ config.generate)
    {filters : List String} {conditions : List Condition}
    (hconditions : Expression.filtersConditions config.dimensions filters = .ok conditions) :
    (∃ generated ∈ (config.applyFilters conditions).generate, generated.same tuple = true) ↔
      conditions.all tuple.meets = true := by
  have hleft := wellDeclared_of_resolved h hconditions
  have hcount := fun hkeeps => countP_generate_of_keepsRegisters h hconditions hkeeps tuple
  constructor
  · rintro ⟨generated, hgenerated, hsame⟩
    have hcovers := (covers_of_mem_generate hleft hgenerated).of_same hsame
    have hkeeps := (covers_of_mem_generate h.wellDeclared htuple).keepsRegisters hcovers
    have hpos : 0 < (config.applyFilters conditions).generate.countP (·.same tuple) :=
      List.countP_pos_iff.mpr ⟨generated, hgenerated, hsame⟩
    rw [hcount hkeeps, countP_filter_meets] at hpos
    by_contra hnot
    rw [if_neg hnot] at hpos
    exact Nat.lt_irrefl 0 hpos
  · intro hmeets
    have hkeeps := keepsRegisters_of_meets h htuple hmeets
    apply List.countP_pos_iff.mp
    rw [hcount hkeeps, countP_filter_meets, if_pos hmeets]
    exact List.countP_pos_iff.mpr ⟨tuple, htuple, Tuple.same_refl tuple⟩

theorem generate_applyFilters_of_pins (h : config.Reachable) (htuple : tuple ∈ config.generate)
    {filters : List String} {conditions : List Condition}
    (hconditions : Expression.filtersConditions config.dimensions filters = .ok conditions)
    (hpins : ∀ c, c ∈ conditions ↔ ∃ name register selection,
      tuple.selection? name register = some selection ∧ c = .pin name register selection) :
    conditions.all tuple.meets = true ∧
      (∀ generated ∈ (config.applyFilters conditions).generate, generated.same tuple = true) ∧
      (config.applyFilters conditions).generate.length =
        config.generate.countP (·.same tuple) := by
  have hmeets : conditions.all tuple.meets = true := by
    rw [List.all_eq_true]
    intro c hc
    obtain ⟨name, register, selection, hselection, rfl⟩ := (hpins c).mp hc
    exact (Tuple.meets_of_singleton rfl).mpr hselection
  have hkeeps := keepsRegisters_of_meets h htuple hmeets
  have hcovers := covers_of_mem_generate h.wellDeclared htuple
  have hcopies : ∀ generated ∈ (config.applyFilters conditions).generate,
      generated.same tuple = true := by
    intro generated hgenerated
    have hpos : 0 < (config.applyFilters conditions).generate.countP (·.same generated) :=
      List.countP_pos_iff.mpr ⟨generated, hgenerated, Tuple.same_refl generated⟩
    rw [countP_generate_of_keepsRegisters h hconditions hkeeps, List.countP_pos_iff] at hpos
    obtain ⟨source, hsource, hsame⟩ := hpos
    obtain ⟨hsource, hall⟩ := List.mem_filter.mp hsource
    refine Tuple.same_trans (Tuple.same_symm hsame) ?_
    refine (covers_of_mem_generate h.wellDeclared hsource).same_of_selection? hcovers ?_
    intro name register selection hselection
    have hpin := List.all_eq_true.mp hall _ ((hpins _).mpr ⟨name, register, selection,
      hselection, rfl⟩)
    exact (Tuple.meets_of_singleton rfl).mp hpin
  refine ⟨hmeets, hcopies, ?_⟩
  rw [← List.countP_eq_length.mpr hcopies, countP_generate_of_keepsRegisters h hconditions hkeeps,
    countP_filter_meets, if_pos hmeets]

/--
A tuple whose text is representable comes back from its own filters, alone and as
often as before, and no other tuple does.  Its text is cut into these filters.
-/
theorem filter_filters_iff (h : config.Reachable)
    (hequals : ∀ d ∈ config.dimensions, '=' ∉ d.name.toList) (htuple : tuple ∈ config.generate) :
    ((∃ filtered, config.filter tuple.filters = .ok filtered ∧
        ∃ generated ∈ filtered.generate, generated.same tuple = true) ↔ tuple.Representable) ∧
    (tuple.Representable →
      (∃ filtered, config.filter tuple.filters = .ok filtered ∧
        (∀ generated ∈ filtered.generate, generated.same tuple = true) ∧
        filtered.generate.length = config.generate.countP (·.same tuple)) ∧
      (tuple.entries ≠ [] → (∀ d ∈ config.dimensions, ',' ∉ d.name.toList) →
        (Text.splitAll ',' tuple.text.toList).map String.ofList = tuple.filters)) := by
  have hback : tuple.Representable → ∃ conditions,
      Expression.filtersConditions config.dimensions tuple.filters = .ok conditions ∧
        conditions.all tuple.meets = true ∧
        (∀ generated ∈ (config.applyFilters conditions).generate,
          generated.same tuple = true) ∧
        (config.applyFilters conditions).generate.length =
          config.generate.countP (·.same tuple) := by
    intro hrepresentable
    obtain ⟨conditions, hconditions, hpins⟩ :=
      exists_filtersConditions_pin h htuple hequals hrepresentable
    exact ⟨conditions, hconditions, generate_applyFilters_of_pins h htuple hconditions hpins⟩
  refine ⟨⟨?_, fun hrepresentable => ?_⟩, fun hrepresentable => ⟨?_, fun hne hcomma => ?_⟩⟩
  · rintro ⟨filtered, hfilter, hleft⟩
    obtain ⟨conditions, hconditions, rfl⟩ := filter_eq_ok_iff.mp hfilter
    exact representable_of_meets h htuple hequals hconditions
      ((exists_generate_applyFilters_iff h htuple hconditions).mp hleft)
  · obtain ⟨conditions, hconditions, hmeets, -, -⟩ := hback hrepresentable
    exact ⟨_, filter_eq_ok_iff.mpr ⟨conditions, hconditions, rfl⟩,
      (exists_generate_applyFilters_iff h htuple hconditions).mpr hmeets⟩
  · obtain ⟨conditions, hconditions, -, hcopies⟩ := hback hrepresentable
    exact ⟨_, filter_eq_ok_iff.mpr ⟨conditions, hconditions, rfl⟩, hcopies⟩
  · exact splitAll_text h htuple hrepresentable hne hcomma

def gappedRacks : Value :=
  .object
    [("env/[[]]", .object [("prod", .array [.string "p.1", .string "p.1"])]),
      ("region/<>", .object
        [("us", .array [.string "nyc", .string "n:c"]), ("::rack", .array [.string ""])])]

theorem filter_filters_iff_gappedRacks :
    ∃ config : Config, config.Reachable ∧
      (∃ tuple ∈ config.generate, tuple.text = "env=prod.p.1,region=us.nyc::rack." ∧
        (Text.splitAll ',' tuple.text.toList).map String.ofList = tuple.filters ∧
        ∃ filtered, config.filter tuple.filters = .ok filtered ∧
          (∀ generated ∈ filtered.generate, generated.same tuple = true) ∧
          filtered.generate.length = 2) ∧
      ∃ tuple ∈ config.generate, tuple.text = "env=prod.p.1,region=us.n:c::rack." ∧
        ¬∃ filtered, config.filter tuple.filters = .ok filtered ∧
          ∃ generated ∈ filtered.generate, generated.same tuple = true := by
  have hparse : (parse .firstKey gappedRacks).toOption.any (fun config =>
      decide ((∀ d ∈ config.dimensions, '=' ∉ d.name.toList ∧ ',' ∉ d.name.toList) ∧
        (∃ tuple ∈ config.generate, tuple.text = "env=prod.p.1,region=us.nyc::rack." ∧
          tuple.Representable ∧ tuple.entries ≠ [] ∧
          config.generate.countP (·.same tuple) = 2) ∧
        ∃ tuple ∈ config.generate, tuple.text = "env=prod.p.1,region=us.n:c::rack." ∧
          ¬tuple.Representable)) = true := by
    decide +kernel
  obtain ⟨config, hconfig, hdecide⟩ := any_toOption_iff.mp hparse
  obtain ⟨hnames, ⟨tuple, htuple, htext, hrepresentable, hne, htwo⟩, other, hother, hcolon, hnot⟩ :=
    of_decide_eq_true hdecide
  have hreachable : config.Reachable := .parsed hconfig
  have hequals := fun d hd => (hnames d hd).1
  obtain ⟨-, hback⟩ := filter_filters_iff hreachable hequals htuple
  obtain ⟨⟨filtered, hfilter, hcopies, hlength⟩, hsplit⟩ := hback hrepresentable
  refine ⟨config, hreachable, ⟨tuple, htuple, htext, hsplit hne fun d hd => (hnames d hd).2,
    filtered, hfilter, hcopies, hlength.trans htwo⟩, other, hother, hcolon, fun hkept => hnot ?_⟩
  exact (filter_filters_iff hreachable hequals hother).1.mp hkept

end Config

end Variants
