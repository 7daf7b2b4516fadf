import Variants.Proofs.Placeholder

/-!
# Texts that are read again

Dimensions are looked for one after another, each in what those before it have
made of the text.  A placeholder on its own becomes the selected value when no
other dimension comes upon a placeholder of its own on the way: an earlier one in
the placeholder as it is written, or a later one in the value that was put in.
Otherwise the value is not what comes out.
-/

namespace Variants

variable {tuple : Tuple}

/-! ## Runs of passes -/

theorem interpolate_append_eq_ok_iff {first second : List Dimension} {value result : String} :
    interpolate (first ++ second) tuple value = .ok result ↔
      ∃ between, interpolate first tuple value = .ok between ∧
        interpolate second tuple between = .ok result := by
  simp only [interpolate_eq_ok_iff, List.foldlM_append, bind_eq_ok_iff]
  constructor
  · rintro ⟨text, hfirst, hsecond⟩
    exact ⟨String.ofList text, by simpa using hfirst, by simpa using hsecond⟩
  · rintro ⟨between, hfirst, hsecond⟩
    exact ⟨between.toList, hfirst, hsecond⟩

theorem interpolate_written {d : Dimension} {placeholder : Placeholder} {text : String}
    (h : placeholder.text d tuple = .ok text) :
    interpolate [d] tuple (String.ofList (placeholder.written d.brackets)) = .ok text := by
  have hpass : interpolateDimension tuple d (placeholder.written d.brackets ++ []) = _ :=
    interpolateDimension_written_append placeholder []
  rw [List.append_nil, h] at hpass
  rw [interpolate_eq_ok_iff, String.toList_ofList, List.foldlM_cons, hpass]
  simp [interpolateDimension, bind, Except.bind, Except.map, pure, Except.pure]

/-! ## Passes that find nothing -/

def FilledInOnlyBy (d : Dimension) (dimensions : List Dimension) (tuple : Tuple)
    (value : String) : Prop :=
  ∀ before other after found, dimensions = before ++ other :: after →
    interpolate before tuple value = .ok found → other ≠ d →
      FilledIn other.brackets found.toList

theorem filledInOnlyBy_iff_of_not_mem {d : Dimension} {dimensions : List Dimension}
    (hd : d ∉ dimensions) (tuple : Tuple) (value : String) :
    FilledInOnlyBy d dimensions tuple value ↔
      ∀ other ∈ dimensions, FilledIn other.brackets value.toList := by
  constructor
  · intro h
    induction dimensions using List.reverseRecOn with
    | nil => simp
    | append_singleton rest last ih =>
        have hrest : ∀ other ∈ rest, FilledIn other.brackets value.toList := by
          refine ih (fun hmem => hd (List.mem_append_left _ hmem)) ?_
          intro before other after found hsplit
          exact h before other (after ++ [last]) found (by simp [hsplit])
        have hlast : FilledIn last.brackets value.toList :=
          h rest last [] value rfl (interpolate_of_filledIn hrest)
            fun heq => hd (by simp [heq])
        simpa [or_imp, forall_and] using ⟨hrest, hlast⟩
  · rintro h before other after found rfl hfound -
    have hbefore : interpolate before tuple value = .ok value :=
      interpolate_of_filledIn fun e he => h e (List.mem_append_left _ he)
    rw [hbefore] at hfound
    cases hfound
    exact h other (by simp)

theorem FilledInOnlyBy.interpolate_eq {d : Dimension} {dimensions : List Dimension}
    {value : String} (h : FilledInOnlyBy d dimensions tuple value) (hd : d ∉ dimensions) :
    interpolate dimensions tuple value = .ok value :=
  interpolate_of_filledIn ((filledInOnlyBy_iff_of_not_mem hd tuple value).mp h)

section Split

variable {d : Dimension} {first second : List Dimension} {value between : String}

theorem FilledInOnlyBy.of_append (h : FilledInOnlyBy d (first ++ second) tuple value) :
    FilledInOnlyBy d first tuple value := by
  intro before other after found hsplit
  exact h before other (after ++ second) found (by simp [hsplit])

theorem filledInOnlyBy_append_iff (hfirst : interpolate first tuple value = .ok between) :
    FilledInOnlyBy d (first ++ second) tuple value ↔
      FilledInOnlyBy d first tuple value ∧ FilledInOnlyBy d second tuple between := by
  constructor
  · refine fun h => ⟨h.of_append, fun before other after found hsplit hfound => ?_⟩
    exact h (first ++ before) other after found (by simp [hsplit])
      (interpolate_append_eq_ok_iff.mpr ⟨between, hfirst, hfound⟩)
  · rintro ⟨hone, htwo⟩ before other after found hsplit hfound hne
    rcases List.append_eq_append_iff.mp hsplit with ⟨rest, rfl, hrest⟩ | ⟨rest, rfl, hrest⟩
    · obtain ⟨reached, hreached, hpasses⟩ := interpolate_append_eq_ok_iff.mp hfound
      rw [hfirst] at hreached
      cases hreached
      exact htwo rest other after found hrest hpasses hne
    · cases rest with
      | nil =>
          rw [List.append_nil] at hfirst
          rw [hfirst] at hfound
          cases hfound
          exact htwo [] other after _ hrest.symm (interpolate_of_filledIn (by simp)) hne
      | cons head rest =>
          obtain ⟨rfl, -⟩ := List.cons.inj hrest
          exact hone before _ rest found rfl hfound hne

end Split

theorem filledInOnlyBy_written_iff {d : Dimension} {before after : List Dimension}
    (hnodup : (before ++ d :: after).Nodup) {placeholder : Placeholder} {text : String}
    (htext : placeholder.text d tuple = .ok text) :
    FilledInOnlyBy d (before ++ d :: after) tuple
        (String.ofList (placeholder.written d.brackets)) ↔
      (∀ other ∈ before, FilledIn other.brackets (placeholder.written d.brackets)) ∧
        ∀ other ∈ after, FilledIn other.brackets text.toList := by
  obtain ⟨-, hafter, hdisjoint⟩ := List.nodup_append.mp hnodup
  have hbefore : d ∉ before := fun hmem => hdisjoint d hmem d List.mem_cons_self rfl
  have hown := interpolate_written htext
  have halone : FilledInOnlyBy d [d] tuple
      (String.ofList (placeholder.written d.brackets)) := by
    intro front other back found hsplit _ hne
    have hother : other ∈ [d] := by simp [hsplit]
    exact absurd (List.mem_singleton.mp hother) hne
  have hwritten := filledInOnlyBy_iff_of_not_mem hbefore tuple
    (String.ofList (placeholder.written d.brackets))
  rw [String.toList_ofList] at hwritten
  have hemitted := filledInOnlyBy_iff_of_not_mem (List.nodup_cons.mp hafter).1 tuple text
  rw [← hwritten, ← hemitted]
  constructor
  · intro h
    have hfirst := h.of_append
    have hrest := ((filledInOnlyBy_append_iff (hfirst.interpolate_eq hbefore)).mp h).2
    exact ⟨hfirst, ((filledInOnlyBy_append_iff hown).mp hrest).2⟩
  · rintro ⟨hfirst, hsecond⟩
    have hrest := (filledInOnlyBy_append_iff hown).mpr ⟨halone, hsecond⟩
    exact (filledInOnlyBy_append_iff (hfirst.interpolate_eq hbefore)).mpr ⟨hfirst, hrest⟩

/-! ## Selected values -/

def Dimension.valueMarker (d : Dimension) (register : Register) : String :=
  String.ofList ((⟨.value, register⟩ : Placeholder).written d.brackets)

namespace Config

/--
The marker of a selected value becomes that value if no other dimension finds a
placeholder on the way: an earlier one in the marker, or a later one in the
value.  What the earlier ones leave alone becomes what the later ones make of the
value.
-/
theorem interpolate_valueMarker {config : Config} (h : config.Reachable)
    (htuple : tuple ∈ config.generate) {before after : List Dimension} {d : Dimension}
    (hsplit : config.dimensions = before ++ d :: after) {register : Register}
    (hregister : d.hasRegister register = true) :
    ∃ selection, tuple.selection? d.name register = some selection ∧
      (selection.value ≠ "" →
        (FilledInOnlyBy d config.dimensions tuple (d.valueMarker register) ↔
          (∀ other ∈ before, FilledIn other.brackets (d.valueMarker register).toList) ∧
            ∀ other ∈ after, FilledIn other.brackets selection.value.toList) ∧
        (FilledInOnlyBy d config.dimensions tuple (d.valueMarker register) →
          config.interpolate tuple (d.valueMarker register) = .ok selection.value) ∧
        ((∀ other ∈ before, FilledIn other.brackets (d.valueMarker register).toList) →
          ∀ result, config.interpolate tuple (d.valueMarker register) = .ok result ↔
            Variants.interpolate after tuple selection.value = .ok result)) := by
  have hd : d ∈ config.dimensions := by simp [hsplit]
  obtain ⟨selection, hselection, -⟩ := h.exists_selection htuple hd hregister
  refine ⟨selection, hselection, fun hvalue => ?_⟩
  have hnodup : (before ++ d :: after).Nodup := by
    rw [← hsplit]
    exact List.Nodup.of_map _ h.wellDeclared.nodup_names
  have htext : Placeholder.text d tuple ⟨.value, register⟩ = .ok selection.value :=
    Placeholder.text_eq_ok_iff.mpr
      ⟨hregister, by simp [Placeholder.emitted?, hselection], hvalue⟩
  have honly : FilledInOnlyBy d config.dimensions tuple (d.valueMarker register) ↔
      (∀ other ∈ before, FilledIn other.brackets (d.valueMarker register).toList) ∧
        ∀ other ∈ after, FilledIn other.brackets selection.value.toList := by
    simpa [Dimension.valueMarker, hsplit] using filledInOnlyBy_written_iff hnodup htext
  have hlater : (∀ other ∈ before, FilledIn other.brackets (d.valueMarker register).toList) →
      ∀ result, config.interpolate tuple (d.valueMarker register) = .ok result ↔
        Variants.interpolate after tuple selection.value = .ok result := by
    intro hbefore result
    have hreached : Variants.interpolate (before ++ [d]) tuple (d.valueMarker register) =
        .ok selection.value :=
      interpolate_append_eq_ok_iff.mpr
        ⟨_, interpolate_of_filledIn hbefore, interpolate_written htext⟩
    rw [interpolate, hsplit, List.append_cons, interpolate_append_eq_ok_iff, hreached]
    simp
  refine ⟨honly, fun hdone => ?_, hlater⟩
  obtain ⟨hbefore, hafter⟩ := honly.mp hdone
  exact (hlater hbefore selection.value).mpr (interpolate_of_filledIn hafter)

def relayedStages : Value :=
  .object
    [("env/[[]]", .object [("dev", .array [.string "<@>"])]),
      ("region/<>", .object [("us", .array [.string "nyc"])])]

theorem parse_relayedStages :
    ∃ config env region, parse .firstKey relayedStages = .ok config ∧
      config.dimensions = [env, region] ∧
      env.valueMarker ⟨0⟩ = "[[@]]" ∧ region.valueMarker ⟨0⟩ = "<@>" ∧
      env.hasRegister ⟨0⟩ = true ∧ region.hasRegister ⟨0⟩ = true ∧
      FilledIn env.brackets "<@>".toList ∧
      ∃ tuple ∈ config.generate, tuple.selection? env.name ⟨0⟩ = some ⟨"dev", "<@>"⟩ ∧
        tuple.selection? region.name ⟨0⟩ = some ⟨"us", "nyc"⟩ ∧
        config.interpolate tuple "[[@]]" = .ok "nyc" := by
  have hparse : (parse .firstKey relayedStages).toOption.any (fun config =>
      decide (config.dimensions.length = 2 ∧
        ∀ env ∈ config.dimensions.take 1, ∀ region ∈ config.dimensions.drop 1,
          env.valueMarker ⟨0⟩ = "[[@]]" ∧ region.valueMarker ⟨0⟩ = "<@>" ∧
          env.hasRegister ⟨0⟩ = true ∧ region.hasRegister ⟨0⟩ = true ∧
          FilledIn env.brackets "<@>".toList ∧
          ∃ tuple ∈ config.generate,
            tuple.selection? env.name ⟨0⟩ = some ⟨"dev", "<@>"⟩ ∧
            tuple.selection? region.name ⟨0⟩ = some ⟨"us", "nyc"⟩ ∧
            config.interpolate tuple "[[@]]" = .ok "nyc")) = true := by decide +kernel
  obtain ⟨config, hconfig, hdecide⟩ := any_toOption_iff.mp hparse
  obtain ⟨hlength, hchecks⟩ := of_decide_eq_true hdecide
  obtain ⟨env, region, hdimensions⟩ := List.length_eq_two.mp hlength
  refine ⟨config, env, region, hconfig, hdimensions, hchecks env ?_ region ?_⟩ <;>
    simp [hdimensions]

theorem interpolate_valueMarker_relayedStages :
    ∃ config : Config, config.Reachable ∧ ∃ tuple ∈ config.generate, ∃ env region,
      config.dimensions = [env] ++ region :: [] ∧ region.hasRegister ⟨0⟩ = true ∧
      region.valueMarker ⟨0⟩ = "<@>" ∧
      FilledInOnlyBy region config.dimensions tuple "<@>" ∧
      config.interpolate tuple "<@>" = .ok "nyc" := by
  obtain ⟨config, env, region, hparse, hdimensions, -, hmarker, -, hregister, hfilled, tuple,
    htuple, -, hselection, -⟩ := parse_relayedStages
  have hreachable : config.Reachable := .parsed hparse
  have hsplit : config.dimensions = [env] ++ region :: [] := hdimensions
  obtain ⟨selection, hsame, hvalue⟩ :=
    interpolate_valueMarker hreachable htuple hsplit hregister
  rw [hselection] at hsame
  cases hsame
  obtain ⟨honly, hresult, -⟩ := hvalue (by decide)
  rw [hmarker] at honly hresult
  have hdone := honly.mpr ⟨by simpa using hfilled, by simp⟩
  exact ⟨config, hreachable, tuple, htuple, env, region, hdimensions, hregister, hmarker, hdone,
    hresult hdone⟩

/-- A value that reads like a marker of a later dimension does not come out. -/
theorem exists_relayed_valueMarker : ¬ ∀ (mode : Containment) (document : Value)
    (config : Config), parse mode document = .ok config →
      ∀ tuple ∈ config.generate, ∀ d ∈ config.dimensions, ∀ register selection,
        d.hasRegister register = true → tuple.selection? d.name register = some selection →
          selection.value ≠ "" → ∀ result,
            config.interpolate tuple (d.valueMarker register) = .ok result →
              result = selection.value := by
  intro h
  obtain ⟨config, env, region, hparse, hdimensions, hmarker, -, hregister, -, -, tuple, htuple,
    hselection, -, hinterpolate⟩ := parse_relayedStages
  have henv : env ∈ config.dimensions := by simp [hdimensions]
  have heq := h .firstKey relayedStages config hparse tuple htuple env henv ⟨0⟩ _ hregister
    hselection (by decide) "nyc" (by rw [hmarker, hinterpolate])
  exact absurd heq (by decide)

end Config

end Variants
