import Variants.Proofs.GenerationOrder
import Variants.Proofs.Locality

/-!
# Generation follows dependencies

A list of dimensions is in dependency order when every dimension stands behind
all that it depends on.  The generation order is such a list of the stored
dimensions, reached without ever passing over a missing dependency, and it is
the stored order itself when that is one already.
-/

namespace Variants.Config

def InDependencyOrder (order : List Dimension) : Prop :=
  ∀ d ∈ order, ∀ name ∈ d.depends,
    (order.map (·.name)).idxOf name < (order.map (·.name)).idxOf d.name

instance (order : List Dimension) : Decidable (InDependencyOrder order) :=
  inferInstanceAs (Decidable (∀ d ∈ order, ∀ name ∈ d.depends,
    (order.map (·.name)).idxOf name < (order.map (·.name)).idxOf d.name))

/-! ## Positions -/

theorem isReady_iff_idxOf_lt {done : List Dimension} {d : Dimension} (rest : List Dimension)
    (hfresh : d.name ∉ done.map (·.name)) :
    isReady done d = true ↔ ∀ name ∈ d.depends,
      ((done ++ d :: rest).map (·.name)).idxOf name <
        ((done ++ d :: rest).map (·.name)).idxOf d.name := by
  have hposition : ((done ++ d :: rest).map (·.name)).idxOf d.name = done.length := by
    simp [List.idxOf_append, hfresh]
  rw [isReady_iff, hposition]
  refine forall₂_congr fun name _ => ?_
  rw [← List.mem_map, List.map_append, List.idxOf_append]
  split
  · next hmem => simpa [hmem] using List.idxOf_lt_length_iff.mpr hmem
  · next hmem => simp [hmem]

theorem readyOrder_iff {done order : List Dimension}
    (hnodup : ((done ++ order).map (·.name)).Nodup) :
    ReadyOrder done order ↔ ∀ d ∈ order, ∀ name ∈ d.depends,
      ((done ++ order).map (·.name)).idxOf name <
        ((done ++ order).map (·.name)).idxOf d.name := by
  induction order generalizing done with
  | nil => simp [ReadyOrder]
  | cons d rest ih =>
      have hfresh : d.name ∉ done.map (·.name) := by
        intro hmem
        rw [List.map_append] at hnodup
        exact (List.nodup_append.mp hnodup).2.2 d.name hmem d.name List.mem_cons_self rfl
      have hsplit : done ++ d :: rest = (done ++ [d]) ++ rest := by simp
      rw [ReadyOrder, List.forall_mem_cons, isReady_iff_idxOf_lt rest hfresh, ih (hsplit ▸ hnodup),
        ← hsplit]

theorem inDependencyOrder_iff {order : List Dimension} (hnodup : (order.map (·.name)).Nodup) :
    InDependencyOrder order ↔ ReadyOrder [] order := by
  rw [← List.nil_append order] at hnodup
  exact (readyOrder_iff hnodup).symm

theorem orderAfter_of_readyOrder {done pending : List Dimension} (h : ReadyOrder done pending) :
    orderAfter done pending = done ++ pending := by
  induction pending generalizing done with
  | nil => simp [orderAfter]
  | cons first rest ih =>
      have hnext : takeReady done (first :: rest) = some (first, rest) := by
        rw [takeReady, if_pos h.1]
      rw [orderAfter_of_takeReady hnext, ih h.2, List.append_assoc]
      rfl

theorem idxOf_lt_of_transGen {dimensions order : List Dimension}
    (horder : InDependencyOrder order) (hmem : ∀ d ∈ dimensions, d ∈ order)
    {name other : String} (h : Relation.TransGen (DependsOn dimensions) name other) :
    (order.map (·.name)).idxOf other < (order.map (·.name)).idxOf name := by
  have hstep : ∀ {name other : String}, DependsOn dimensions name other →
      (order.map (·.name)).idxOf other < (order.map (·.name)).idxOf name := by
    rintro name other ⟨d, hd, rfl, hdepends⟩
    exact horder d (hmem d hd) other hdepends
  induction h with
  | single hdepends => exact hstep hdepends
  | tail _ hdepends ih => exact Nat.lt_trans (hstep hdepends) ih

/-! ## The generation order -/

/--
The generation order lists each stored dimension once, behind all it depends on
at any remove.  Every state of the loop leads to it and has a ready dimension as
long as one is pending, so the fallback never happens.  Dimensions that are
stored in dependency order are generated in the stored order.
-/
theorem generationOrder_topological {config : Config} (h : config.Reachable) :
    config.generationOrder.Perm config.dimensions ∧ config.generationOrder.Nodup ∧
      (∀ name other, Relation.TransGen (DependsOn config.dimensions) name other →
        (config.generationOrder.map (·.name)).idxOf other <
          (config.generationOrder.map (·.name)).idxOf name) ∧
      (∀ done pending, Placing config.dimensions done pending →
        orderAfter done pending = config.generationOrder ∧
          (pending ≠ [] → ∃ next others, takeReady done pending = some (next, others))) ∧
      (InDependencyOrder config.dimensions → config.generationOrder = config.dimensions) := by
  have hwell := h.wellDeclared
  obtain ⟨hperm, hready⟩ := generationOrder_spec hwell
  have hnames : (config.generationOrder.map (·.name)).Nodup :=
    (hperm.map (·.name)).nodup_iff.mpr hwell.nodup_names
  have horder : InDependencyOrder config.generationOrder :=
    (inDependencyOrder_iff hnames).mpr hready
  refine ⟨hperm, List.Nodup.of_map _ hnames, fun name other hdepends => ?_,
    fun done pending hplacing => ⟨hplacing.orderAfter_eq, ?_⟩, fun hstored => ?_⟩
  · exact idxOf_lt_of_transGen horder (fun d => hperm.mem_iff.mpr) hdepends
  · exact hplacing.exists_takeReady (ranked_of_wellDeclared hwell)
  · exact orderAfter_of_readyOrder ((inDependencyOrder_iff hwell.nodup_names).mp hstored)

def wideningChain : Value :=
  .object
    [("env/[]", .object [("dev", .array [.string "d1"]), ("prod", .array [.string "p1"])]),
      ("region/<<>>", .object
        [("us", .array [.string "nyc"]), ("eu[prod]", .array [.string "fra"])]),
      ("rack/{{{}}}", .object
        [("open", .array [.string "r1"]), ("caged<<eu>>", .array [.string "r2"])])]

theorem generationOrder_topological_wideningChain :
    (∃ config : Config, config.Reachable ∧
      config.dimensions.map (·.name) = ["rack", "region", "env"] ∧
      config.generationOrder.Perm config.dimensions ∧
      (config.generationOrder.map (·.name)).idxOf "env" <
        (config.generationOrder.map (·.name)).idxOf "rack" ∧
      ∃ next others, takeReady [] config.dimensions = some (next, others)) ∧
    ∃ config : Config, config.Reachable ∧ config.dimensions.map (·.name) = ["env", "region"] ∧
      InDependencyOrder config.dimensions ∧ config.generationOrder = config.dimensions := by
  constructor
  · have hparse : (parse .firstKey wideningChain).toOption.any (fun config => decide
        (config.dimensions.map (·.name) = ["rack", "region", "env"] ∧
          (∃ d ∈ config.dimensions, d.name = "rack" ∧ "region" ∈ d.depends) ∧
          ∃ d ∈ config.dimensions, d.name = "region" ∧ "env" ∈ d.depends)) = true := by
      decide +kernel
    obtain ⟨config, hconfig, hdecide⟩ := any_toOption_iff.mp hparse
    obtain ⟨hnames, hrack, hregion⟩ := of_decide_eq_true hdecide
    have hreachable := Reachable.parsed hconfig
    obtain ⟨hperm, -, hdepends, hstates, -⟩ := generationOrder_topological hreachable
    have hne : config.dimensions ≠ [] := by
      intro hnil
      simp [hnil] at hnames
    exact ⟨config, hreachable, hnames, hperm, hdepends "rack" "env" (.tail (.single hrack) hregion),
      (hstates [] config.dimensions .start).2 hne⟩
  · have hparse : (parse .firstKey stagedRegions).toOption.any (fun config => decide
        (config.dimensions.map (·.name) = ["env", "region"] ∧
          InDependencyOrder config.dimensions)) = true := by
      decide +kernel
    obtain ⟨config, hconfig, hdecide⟩ := any_toOption_iff.mp hparse
    obtain ⟨hnames, hstored⟩ := of_decide_eq_true hdecide
    have hreachable := Reachable.parsed hconfig
    exact ⟨config, hreachable, hnames, hstored,
      (generationOrder_topological hreachable).2.2.2.2 hstored⟩

end Variants.Config
