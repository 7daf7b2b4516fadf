import Variants.Config.Rendering
import Variants.Proofs.Generation
import Variants.Proofs.Interpolation
import Variants.Proofs.Naming

/-!
# Placeholders that cannot be filled in

Filling in stops at the first placeholder for which its dimension or the tuple
has no text.  A generated tuple selects something in every register, and names
and domains are never empty.  What is left are two causes: the dimension does not
have the register, or the value selected in it is the empty text.
-/

namespace Variants

variable {tuple : Tuple} {d : Dimension}

/-! ## The placeholder at fault -/

namespace Placeholder

def StandsIn (brackets : Brackets) (placeholder : Placeholder) (text : List Char) : Prop :=
  ∃ rest length, rest <:+ text ∧ read? brackets rest = some (placeholder, length)

def emitted? (d : Dimension) (tuple : Tuple) (placeholder : Placeholder) : Option String :=
  match placeholder.emission with
  | .name => some d.name
  | .value => (tuple.selection? d.name placeholder.register).map (·.value)
  | .domain => (tuple.selection? d.name placeholder.register).map (·.domain)

theorem text_eq (placeholder : Placeholder) : placeholder.text d tuple =
    if d.hasRegister placeholder.register then
      (placeholder.emitted? d tuple).elim
        (.error (.emptyInterpolation d.name placeholder.register)) fun text =>
          if text.isEmpty then .error (.emptyInterpolation d.name placeholder.register)
          else .ok text
    else .error (.unknownRegister d.name placeholder.register) := by
  unfold text emitted?
  cases placeholder.emission <;>
    cases tuple.selection? d.name placeholder.register <;> rfl

theorem text_eq_ok_iff {placeholder : Placeholder} {text : String} :
    placeholder.text d tuple = .ok text ↔
      d.hasRegister placeholder.register = true ∧
        placeholder.emitted? d tuple = some text ∧ text ≠ "" := by
  rw [text_eq]
  cases d.hasRegister placeholder.register with
  | false => simp
  | true =>
      cases placeholder.emitted? d tuple with
      | none => simp
      | some emitted =>
          by_cases hempty : emitted = ""
          · simp [hempty]
          · simpa [hempty] using fun h : emitted = text => h ▸ hempty

theorem text_eq_error_iff {placeholder : Placeholder} {error : Error} :
    placeholder.text d tuple = .error error ↔
      (d.hasRegister placeholder.register = false ∧
        error = .unknownRegister d.name placeholder.register) ∨
      (d.hasRegister placeholder.register = true ∧
        error = .emptyInterpolation d.name placeholder.register ∧
        ∀ text, placeholder.emitted? d tuple = some text → text = "") := by
  rw [text_eq]
  cases d.hasRegister placeholder.register with
  | false => simpa using eq_comm
  | true =>
      cases placeholder.emitted? d tuple with
      | none => simpa using eq_comm
      | some text =>
          by_cases hempty : text = ""
          · simpa [hempty] using eq_comm
          · simp [hempty]

end Placeholder

theorem exists_placeholder_of_interpolateDimension {text : List Char} {error : Error}
    (h : interpolateDimension tuple d text = .error error) :
    ∃ placeholder : Placeholder, placeholder.StandsIn d.brackets text ∧
      placeholder.text d tuple = .error error := by
  fun_induction interpolateDimension tuple d text with
  | case1 => cases h
  | case2 c rest hread ih =>
      obtain ⟨placeholder, ⟨found, length, hsuffix, hfound⟩, htext⟩ :=
        ih (map_eq_error_iff.mp h)
      exact ⟨placeholder, ⟨found, length, hsuffix.trans (List.suffix_cons c rest), hfound⟩, htext⟩
  | case3 c rest placeholder length hread other htext =>
      cases h
      exact ⟨placeholder, ⟨c :: rest, length, List.suffix_rfl, hread⟩, htext⟩
  | case4 c rest placeholder length hread emitted htext ih =>
      obtain ⟨failing, ⟨found, width, hsuffix, hfound⟩, htext⟩ := ih (map_eq_error_iff.mp h)
      have hrest : found <:+ c :: rest :=
        (hsuffix.trans (List.drop_suffix _ rest)).trans (List.suffix_cons c rest)
      exact ⟨failing, ⟨found, width, hrest, hfound⟩, htext⟩

theorem exists_placeholder_of_interpolate {dimensions : List Dimension} {value : String}
    {error : Error} (h : interpolate dimensions tuple value = .error error) :
    ∃ before d after filled cause, dimensions = before ++ d :: after ∧
      interpolate before tuple value = .ok filled ∧ error = .inInterpolation value cause ∧
      ∃ placeholder : Placeholder, placeholder.StandsIn d.brackets filled.toList ∧
        placeholder.text d tuple = .error cause := by
  obtain ⟨cause, hcause, rfl⟩ := mapError_eq_error_iff.mp (map_eq_error_iff.mp h)
  obtain ⟨before, d, after, filled, rfl, hbefore, hfailing⟩ := exists_of_foldlM_error hcause
  obtain ⟨placeholder, hstands, htext⟩ := exists_placeholder_of_interpolateDimension hfailing
  refine ⟨before, d, after, String.ofList filled, cause, rfl, ?_, rfl, placeholder, ?_, htext⟩
  · simp [interpolate, hbefore, Except.mapError, Except.map]
  · simpa using hstands

/-! ## Generated tuples -/

namespace Config

theorem Reachable.exists_selection {config : Config} (h : config.Reachable)
    (htuple : tuple ∈ config.generate) (hd : d ∈ config.dimensions) {register : Register}
    (hregister : d.hasRegister register = true) :
    ∃ selection, tuple.selection? d.name register = some selection ∧ ∃ item ∈ d.items,
      item.register = register ∧ item.domain = selection.domain ∧
        selection.value ∈ item.values := by
  obtain ⟨-, hways⟩ :=
    (exists_generate_iff h.wellDeclared).mp ⟨tuple, htuple, Tuple.same_refl tuple⟩
  have hpos := ways_pos_iff.mp hways d hd register (d.hasRegister_iff.mp hregister)
  obtain ⟨selection, hselection, item, hitem, hat, hdomain, hvalue, -⟩ :=
    Dimension.ways_pos_iff.mp hpos
  exact ⟨selection, hselection, item, hitem, hat, hdomain, hvalue⟩

/--
Filling in for a generated tuple fails at a placeholder that stands in the text
as the dimensions looked for earlier leave it.  Either no item of its dimension
is in the register, or it asks for a value and the one selected is empty.
-/
theorem interpolate_error_of_generated {config : Config} (h : config.Reachable)
    {tuple : Tuple} (htuple : tuple ∈ config.generate) {text : String} {error : Error}
    (herror : config.interpolate tuple text = .error error) :
    ∃ before d after filled cause, config.dimensions = before ++ d :: after ∧
      Variants.interpolate before tuple text = .ok filled ∧
      error = .inInterpolation text cause ∧ error.rootCause = cause ∧
      ∃ placeholder : Placeholder, placeholder.StandsIn d.brackets filled.toList ∧
        ((cause = .unknownRegister d.name placeholder.register ∧
            ∀ item ∈ d.items, item.register ≠ placeholder.register) ∨
          (cause = .emptyInterpolation d.name placeholder.register ∧
            placeholder.emission = .value ∧ d.name ≠ "" ∧
            ∃ selection, tuple.selection? d.name placeholder.register = some selection ∧
              selection.domain ≠ "" ∧ selection.value = "")) := by
  obtain ⟨before, d, after, filled, cause, hsplit, hfilled, rfl, placeholder, hstands, htext⟩ :=
    exists_placeholder_of_interpolate herror
  have hd : d ∈ config.dimensions := by simp [hsplit]
  rcases Placeholder.text_eq_error_iff.mp htext with ⟨hregister, rfl⟩ | ⟨hregister, rfl, hempty⟩
  · refine ⟨before, d, after, filled, _, hsplit, hfilled, rfl, rfl, placeholder, hstands,
      .inl ⟨rfl, fun item hitem heq => ?_⟩⟩
    rw [← Bool.not_eq_true, d.hasRegister_iff, d.mem_registers] at hregister
    exact hregister ⟨item, hitem, heq⟩
  · obtain ⟨selection, hselection, item, hitem, -, hdomain, -⟩ :=
      h.exists_selection htuple hd hregister
    have hnamed := h.named d hd
    have hname : d.name ≠ "" := fun heq => hnamed.name_ne_nil (by simp [heq])
    have hsegment : selection.domain ≠ "" := by
      obtain ⟨c, rest, hcons, -⟩ := (hnamed.isSegment item hitem).exists_cons
      rintro heq
      simp [hdomain, heq] at hcons
    -- Names and domains have text, so the placeholder asks for the value.
    obtain ⟨emission, register⟩ := placeholder
    have hvalue : emission = .value ∧ selection.value = "" := by
      cases emission with
      | name => exact absurd (hempty d.name rfl) hname
      | domain =>
          have hnil := hempty selection.domain (by simp [Placeholder.emitted?, hselection])
          exact absurd hnil hsegment
      | value =>
          exact ⟨rfl, hempty selection.value (by simp [Placeholder.emitted?, hselection])⟩
    exact ⟨before, d, after, filled, _, hsplit, hfilled, rfl, rfl, ⟨emission, register⟩, hstands,
      .inr ⟨rfl, hvalue.1, hname, selection, hselection, hsegment, hvalue.2⟩⟩

def relayedRegions : Value :=
  .object
    [("env/[[]]", .object [("dev", .array [.string "<@>"])]),
      ("region/<>", .object [("us", .array [.null])])]

theorem interpolate_error_of_generated_relayedRegions :
    ∃ config : Config, config.Reachable ∧ ∃ tuple ∈ config.generate,
      config.interpolate tuple "in [[@]]" =
        .error (.inInterpolation "in [[@]]" (.emptyInterpolation "region" ⟨0⟩)) ∧
      ∃ before d after filled cause, config.dimensions = before ++ d :: after ∧
        Variants.interpolate before tuple "in [[@]]" = .ok filled ∧
        Error.inInterpolation "in [[@]]" (.emptyInterpolation "region" ⟨0⟩) =
          .inInterpolation "in [[@]]" cause ∧
        ∃ placeholder : Placeholder, placeholder.StandsIn d.brackets filled.toList ∧
          cause = .emptyInterpolation d.name placeholder.register ∧
          placeholder.emission = .value ∧
          ∃ selection, tuple.selection? d.name placeholder.register = some selection ∧
            selection.domain ≠ "" ∧ selection.value = "" := by
  have hparse : (parse .firstKey relayedRegions).toOption.any (fun config =>
      decide (∃ tuple ∈ config.generate, config.interpolate tuple "in [[@]]" =
        .error (.inInterpolation "in [[@]]" (.emptyInterpolation "region" ⟨0⟩)))) = true := by
    decide +kernel
  obtain ⟨config, hconfig, hdecide⟩ := any_toOption_iff.mp hparse
  obtain ⟨tuple, htuple, herror⟩ := of_decide_eq_true hdecide
  have hreachable : config.Reachable := .parsed hconfig
  obtain ⟨before, d, after, filled, cause, hsplit, hfilled, hcause, -, placeholder, hstands,
    hcases⟩ := interpolate_error_of_generated hreachable htuple herror
  refine ⟨config, hreachable, tuple, htuple, herror, before, d, after, filled, cause, hsplit,
    hfilled, hcause, placeholder, hstands, ?_⟩
  cases hcause
  rcases hcases with ⟨hunknown, -⟩ | ⟨heq, hvalue, -, hselection⟩
  · cases hunknown
  · exact ⟨heq, hvalue, hselection⟩

end Config

end Variants
