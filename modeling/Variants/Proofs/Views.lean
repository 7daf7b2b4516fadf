import Variants.Proofs.Dimension
import Variants.Report

/-!
# Views of a dimension

A dimension is asked for its registers, domains and values one at a time, and it is
tabulated in one pass: with the values of each domain to narrow conditions by, and
with the declared items to report.  All of these list the same registers and domains in
the same order.  This holds whatever the items are, so of filtered dimensions as well.
-/

namespace Variants

def OrderedMap.rows {κ ι α : Type} (table : OrderedMap κ (OrderedMap ι α)) :
    List (κ × List (ι × α)) :=
  table.entries.map fun entry => (entry.1, entry.2.entries)

def Item.offer (item : Item) : Dimension.Offer := ⟨item.values, item.conditions⟩

theorem perm_flatMap_filter {ι κ : Type} [DecidableEq κ] {key : ι → κ} {names : List κ}
    (hnodup : names.Nodup) {xs : List ι} (hkey : ∀ x ∈ xs, key x ∈ names) :
    (names.flatMap fun name => xs.filter (key · == name)).Perm xs := by
  induction names generalizing xs with
  | nil =>
      have hnil : xs = [] :=
        List.eq_nil_iff_forall_not_mem.mpr fun x hx => List.not_mem_nil (hkey x hx)
      rw [hnil]
      exact .refl []
  | cons name names ih =>
      obtain ⟨hname, hnames⟩ := List.nodup_cons.mp hnodup
      -- The groups of the other names are made of the members with another key.
      have hothers : (names.flatMap fun other => xs.filter (key · == other)) =
          names.flatMap fun other =>
            (xs.filter (!key · == name)).filter (key · == other) := by
        refine List.flatMap_congr fun other hother => ?_
        have hne : other ≠ name := fun heq => hname (heq ▸ hother)
        rw [List.filter_filter]
        refine List.filter_congr fun x _ => ?_
        by_cases hx : key x = other <;> simp [hx, hne]
      have hrest : (names.flatMap fun other => xs.filter (key · == other)).Perm
          (xs.filter (!key · == name)) := by
        rw [hothers]
        refine ih hnames fun x hx => ?_
        obtain ⟨hmem, hne⟩ := List.mem_filter.mp hx
        exact List.mem_of_ne_of_mem (by simpa using hne) (hkey x hmem)
      rw [List.flatMap_cons]
      exact (hrest.append_left _).trans (List.filter_append_perm (key · == name) xs)

namespace Dimension

variable (d : Dimension)

theorem nodup_domains (register : Register) : (d.domains register).Nodup := nodup_eraseDups _

theorem mem_domains {register : Register} {domain : String} :
    domain ∈ d.domains register ↔ d.hasDomain register domain = true := by
  simp [domains, hasDomain, List.mem_eraseDups]

/-! ## Tables -/

/-- A cell for each domain of each register, in the order of first appearance. -/
def layout {α : Type} (cell : Register → String → α) : List (Register × List (String × α)) :=
  d.registers.map fun register =>
    (register, (d.domains register).map fun domain => (domain, cell register domain))

theorem rows_group {α : Type} (init : α) (step : α → Item → α) :
    (OrderedMap.group Item.register OrderedMap.empty
      (fun (domains : OrderedMap String α) item =>
        domains.alter item.domain fun cell => step (cell.getD init) item) d.items).rows =
      d.layout fun register domain => (d.itemsAt register domain).foldl step init := by
  rw [OrderedMap.rows, OrderedMap.entries_group, List.map_map]
  refine List.map_congr_left fun register _ => Prod.ext rfl ?_
  exact OrderedMap.entries_group Item.domain init step (d.itemsOf register)

theorem rows_mergedValues : d.mergedValues.rows = d.layout d.values := by
  refine (d.rows_group [] fun values item => mergeValues values item.values).trans ?_
  simp only [foldl_mergeValues]
  rfl

theorem rows_offers :
    d.offers.rows = d.layout fun register domain => (d.itemsAt register domain).map Item.offer := by
  have hoffers : ∀ items : List Item,
      items.foldl (fun offers item => offers ++ [item.offer]) [] = items.map Item.offer := by
    intro items
    induction items using List.reverseRecOn with
    | nil => rfl
    | append_singleton items item ih =>
        rw [List.foldl_append, ih, List.map_append]
        rfl
  refine (d.rows_group [] fun offers item => offers ++ [item.offer]).trans ?_
  simp only [hoffers]

/-! ## Items behind a table -/

def listed (rows : List (Register × List (String × List Offer))) : List Item :=
  rows.flatMap fun row =>
    row.2.flatMap fun cell =>
      cell.2.map fun offer => ⟨row.1, cell.1, offer.values, offer.conditions⟩

theorem listed_layout :
    listed (d.layout fun register domain => (d.itemsAt register domain).map Item.offer) =
      d.registers.flatMap fun register =>
        (d.domains register).flatMap fun domain => d.itemsAt register domain := by
  rw [listed, layout, List.flatMap_map]
  refine List.flatMap_congr fun register _ => ?_
  rw [List.flatMap_map]
  refine List.flatMap_congr fun domain _ => ?_
  rw [List.map_map]
  refine (List.map_congr_left fun item hitem => ?_).trans (List.map_id _)
  obtain ⟨-, rfl, rfl⟩ := d.mem_itemsAt.mp hitem
  rfl

theorem perm_itemsAt :
    (d.registers.flatMap fun register =>
      (d.domains register).flatMap fun domain => d.itemsAt register domain).Perm d.items := by
  have hregister : ∀ register,
      ((d.domains register).flatMap fun domain => d.itemsAt register domain).Perm
        (d.itemsOf register) := by
    intro register
    refine perm_flatMap_filter (d.nodup_domains register) fun item hitem => ?_
    exact List.mem_eraseDups.mpr (List.mem_map_of_mem hitem)
  refine (List.Perm.flatMap_left _ fun register _ => hregister register).trans ?_
  refine perm_flatMap_filter d.nodup_registers fun item hitem => ?_
  exact d.mem_registers.mpr ⟨item, hitem, rfl⟩

/-! ## Agreement -/

/--
Both tables have the registers and the domains of each as they are listed by
themselves, none twice.  The one has the values of each domain, the other, which is
what is reported, its items in their order, and every item is in one place.
-/
theorem views_agree :
    d.mergedValues.rows = d.layout d.values ∧
    (d.registers.Nodup ∧ ∀ register, (d.domains register).Nodup ∧
      ∀ domain, (d.values register domain).Nodup) ∧
    (∀ register, d.hasRegister register = true ↔ register ∈ d.registers) ∧
    (∀ register domain, d.hasDomain register domain = true ↔ domain ∈ d.domains register) ∧
    (∀ register domain value, d.hasValue register domain value = true ↔
      value ∈ d.values register domain) ∧
    d.offers.rows = (d.layout fun register domain =>
      (d.items.filter fun item =>
        item.register == register && item.domain == domain).map Item.offer) ∧
    (listed d.offers.rows).Perm d.items ∧
    d.info = .object (d.offers.rows.map fun row =>
      (row.1.text, .object (row.2.map fun cell =>
        (cell.1, .array (cell.2.map Offer.toValue))))) := by
  have hoffers := d.rows_offers
  refine ⟨d.rows_mergedValues, ⟨d.nodup_registers, fun register =>
    ⟨d.nodup_domains register, d.nodup_values register⟩⟩, fun _ => d.hasRegister_iff,
    fun _ _ => d.mem_domains.symm, fun _ _ _ => d.hasValue_iff, ?_, ?_, ?_⟩
  · rw [hoffers]
    simp only [itemsAt, itemsOf, List.filter_filter, Bool.and_comm]
  · rw [hoffers, listed_layout]
    exact d.perm_itemsAt
  · rw [OrderedMap.rows, List.map_map]
    rfl

example (brackets : Brackets) :
    (ofItems "env" brackets
      [⟨⟨1⟩, "zone", ["b", "b"], []⟩, ⟨⟨0⟩, "dev", [], []⟩,
        ⟨⟨1⟩, "zone", ["a", "b"], []⟩]).mergedValues.rows =
      [(⟨1⟩, [("zone", ["b", "a"])]), (⟨0⟩, [("dev", [])])] := rfl

end Dimension

end Variants
