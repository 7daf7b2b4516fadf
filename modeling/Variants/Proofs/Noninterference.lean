import Variants.Proofs.Generation
import Variants.Proofs.Rendering

/-!
# Dimensions that products do not depend on

A dimension reaches a product through the conditions of the tree and through its
placeholders.  The strings are filled in by one dimension after another, so its
placeholders can also come from texts that the others put in.  When neither the
strings nor those texts have the character that opens a placeholder, whatever is
selected for the dimension makes no difference.
-/

namespace Variants

def Brackets.opening (brackets : Brackets) : Char := brackets.left.head brackets.left_ne_nil

theorem Brackets.absent_of_opening {brackets : Brackets} {text : List Char}
    (h : brackets.opening ∉ text) : ¬ brackets.left <:+: text :=
  fun hpart => h (hpart.subset (List.head_mem brackets.left_ne_nil))

theorem interpolate_unmentioned {dimensions : List Dimension} {s t : Tuple} (d₀ : Dimension)
    (h : ∀ d ∈ dimensions, d ≠ d₀ →
      d.Lacks s d₀.brackets.opening ∧ Tuple.AgreeAt d.name s t)
    {value : String} (hvalue : d₀.brackets.opening ∉ value.toList) :
    interpolate dimensions s value = interpolate dimensions t value := by
  have hfold : dimensions.foldlM (fun text d => interpolateDimension s d text) value.toList =
      dimensions.foldlM (fun text d => interpolateDimension t d text) value.toList := by
    -- No text on the way has the character, so the dimension itself has nothing to replace.
    refine foldlM_congr (P := fun text => d₀.brackets.opening ∉ text) ?_ ?_ hvalue
    · intro text d hd hnot
      by_cases hsame : d = d₀
      · subst hsame
        have hplain := Brackets.absent_of_opening hnot
        rw [interpolateDimension_of_absent hplain, interpolateDimension_of_absent hplain]
      · exact interpolateDimension_congr (.refl d) (h d hd hsame).2 text
    · intro text d hd hnot filled hfilled
      by_cases hsame : d = d₀
      · subst hsame
        rw [interpolateDimension_of_absent (Brackets.absent_of_opening hnot)] at hfilled
        cases hfilled
        exact hnot
      · exact not_mem_interpolateDimension (h d hd hsame).1 hnot hfilled
  rw [interpolate, interpolate, hfold]

namespace Config

variable {config : Config} {d₀ : Dimension} {s t : Tuple}

theorem Reachable.exists_dimension_of_tree (h : config.Reachable) :
    ∀ node ∈ config.tree.nodes, ∀ c ∈ node.conditions,
      ∃ d ∈ config.dimensions, c.dimension = d.name := by
  apply h.induction_on_filters
  · intro mode document config hparse node hnode c hc
    obtain ⟨root, declarations, tree, -, -, htree, rfl⟩ := parse_eq_ok_iff.mp hparse
    obtain ⟨d, hd, hfits⟩ := Properties.grounded_tree htree node hnode c hc
    exact ⟨d, hd, hfits.dimension_eq⟩
  -- Filtering leaves the tree alone and keeps the names of the dimensions.
  · intro config hreachable ih conditions node hnode c hc
    have htree : (config.applyFilters conditions).tree = config.tree := by
      cases conditions <;> rfl
    rw [htree] at hnode
    obtain ⟨d, hd, hname⟩ := ih node hnode c hc
    obtain ⟨left, hwithin, hdimensions⟩ := exists_within hreachable.wellDeclared conditions
    refine ⟨left d, ?_, hname.trans (hwithin d).name_eq.symm⟩
    rw [hdimensions]
    exact List.mem_map_of_mem hd

/-- Nothing in the tree, and nothing that the tuple puts into it, points to the dimension. -/
structure Unmentioned (config : Config) (d₀ : Dimension) (tuple : Tuple) : Prop where
  conditions : ∀ node ∈ config.tree.nodes, ∀ c ∈ node.conditions, c.dimension ≠ d₀.name
  strings : ∀ node ∈ config.tree.nodes, ∀ text ∈ node.strings,
    d₀.brackets.opening ∉ text.toList
  others : ∀ d ∈ config.dimensions, d.name ≠ d₀.name → d.Lacks tuple d₀.brackets.opening

/--
A dimension that is not mentioned does not influence products: tuples that agree
on all other dimensions render alike, to a value or to an error.
-/
theorem render_unmentioned (h : config.Reachable) (hd₀ : d₀ ∈ config.dimensions)
    (hunmentioned : config.Unmentioned d₀ s)
    (hagree : ∀ d ∈ config.dimensions, d.name ≠ d₀.name → Tuple.AgreeAt d.name s t) :
    config.render s = config.render t := by
  refine render_agree rfl fun node hnode => ⟨fun c hc => ?_, fun text htext => ?_⟩
  · obtain ⟨d, hd, hname⟩ := h.exists_dimension_of_tree node hnode c hc
    have hne : d.name ≠ d₀.name := hname ▸ hunmentioned.conditions node hnode c hc
    rw [Condition.holdsIn_toContext, Condition.holdsIn_toContext, hname,
      hagree d hd hne c.register]
  · refine interpolate_unmentioned d₀ (fun d hd hne => ?_)
      (hunmentioned.strings node hnode text htext)
    have hname : d.name ≠ d₀.name := mt (h.wellDeclared.eq_of_name_eq hd hd₀) hne
    exact ⟨hunmentioned.others d hd hname, hagree d hd hname⟩

def regionlessHosts : Value :=
  .object
    [("env/[[]]", .object [("dev", .array [.string "d1"]), ("prod", .array [.string "p1"])]),
      ("region/<>", .object [("us", .array [.string "nyc"]), (":rack", .array [.string "r1"])]),
      ("host", .string "[[.]]:[[@]].[[$]]"),
      ("ports", .array [.object [("port[[prod]]", .integer 80)], .string "[[:@]"])]

theorem render_unmentioned_regionlessHosts :
    ∃ config : Config, config.Reachable ∧ ∃ d₀ ∈ config.dimensions, d₀.name = "region" ∧
      config.Unmentioned d₀ (rackedVariant "p1") ∧
      (config.render (rackedVariant "p1")).toOption.any (·.same (.object
        [("host", .string "env:p1.prod"),
          ("ports", .array [.object [("port", .integer 80)], .string "[[:@]"])])) = true ∧
      config.render (rackedVariant "p1") =
        config.render ((rackedVariant "p1").insert "region" OrderedMap.empty) := by
  have hparse : (parse .firstKey regionlessHosts).toOption.any (fun config =>
      decide (config.dimensions.map (·.name) = ["env", "region"] ∧
        ∃ d₀ ∈ config.dimensions, d₀.name = "region" ∧ d₀.brackets.opening = '<' ∧
          (∀ node ∈ config.tree.nodes.toList, ∀ c ∈ node.conditions, c.dimension ≠ d₀.name) ∧
          ∀ node ∈ config.tree.nodes.toList, ∀ text ∈ node.strings, '<' ∉ text.toList) &&
      (config.render (rackedVariant "p1")).toOption.any (·.same (.object
        [("host", .string "env:p1.prod"),
          ("ports", .array [.object [("port", .integer 80)], .string "[[:@]"])]))) = true := by
    decide +kernel
  obtain ⟨config, hconfig, hchecks⟩ := any_toOption_iff.mp hparse
  obtain ⟨hdecide, hrender⟩ := Bool.and_eq_true_iff.mp hchecks
  obtain ⟨hnames, d₀, hd₀, hname, hopening, hconditions, hstrings⟩ := of_decide_eq_true hdecide
  have henv : ∀ d ∈ config.dimensions, d.name ≠ d₀.name → d.name = "env" := by
    intro d hd hne
    have hmem : d.name ∈ ["env", "region"] := hnames ▸ List.mem_map_of_mem hd
    simpa [← hname, hne] using hmem
  have hunmentioned : config.Unmentioned d₀ (rackedVariant "p1") := by
    refine ⟨fun node hnode => hconditions node (Array.mem_toList_iff.mpr hnode), ?_, ?_⟩
    · rw [hopening]
      exact fun node hnode => hstrings node (Array.mem_toList_iff.mpr hnode)
    · intro d hd hne
      rw [hopening]
      refine ⟨henv d hd hne ▸ by decide, fun register selection hselection => ?_⟩
      rw [henv d hd hne] at hselection
      have hentry : (register, selection) ∈ [(⟨0⟩, ⟨"prod", "p1"⟩)] :=
        OrderedMap.get?_eq_some_iff.mp hselection
      cases List.mem_singleton.mp hentry
      decide
  refine ⟨config, .parsed hconfig, d₀, hd₀, hname, hunmentioned, hrender, ?_⟩
  exact render_unmentioned (.parsed hconfig) hd₀ hunmentioned fun d _ hne =>
    Tuple.agreeAt_insert _ (hname ▸ hne) OrderedMap.empty

end Config

end Variants
