import Variants.Dimension.Resolution
import Variants.Proofs.OrderedMap
import Variants.Proofs.Outcome

/-!
# What a dimension offers

The values of a register and domain are listed once each, in the order of their
first appearance.  A table that is made in one pass over the items holds for each
key what the members with this key come to; so the table of merged values lists the
same values.  A name that resolves on a dimension resolves to one of its domains and
some of the values listed there.
-/

namespace Variants

/-! ## Lists without repetitions -/

section EraseDups

variable {α : Type} [BEq α] [LawfulBEq α]

theorem eraseDups_concat (as : List α) (a : α) :
    (as ++ [a]).eraseDups = if as.contains a then as.eraseDups else as.eraseDups ++ [a] := by
  rw [List.eraseDups_append]
  by_cases h : a ∈ as <;> simp [List.removeAll, List.eraseDups_cons, h]

theorem nodup_eraseDups (as : List α) : as.eraseDups.Nodup := by
  induction as using List.reverseRecOn with
  | nil => exact List.nodup_nil
  | append_singleton as a ih =>
      rw [eraseDups_concat]
      split
      · exact ih
      · next h =>
          refine List.nodup_append.mpr ⟨ih, List.nodup_singleton a, ?_⟩
          intro x hx y hy hxy
          have hmem : a ∈ as := by
            rw [List.mem_singleton.mp hy] at hxy
            exact List.mem_eraseDups.mp (hxy ▸ hx)
          exact h (List.contains_iff_mem.mpr hmem)

theorem eraseDups_of_nodup {as : List α} (h : as.Nodup) : as.eraseDups = as := by
  induction as using List.reverseRecOn with
  | nil => rfl
  | append_singleton as a ih =>
      obtain ⟨has, -, hdisjoint⟩ := List.nodup_append.mp h
      have hfresh : ¬ as.contains a = true := fun hmem =>
        hdisjoint a (List.contains_iff_mem.mp hmem) a (List.mem_singleton_self a) rfl
      rw [eraseDups_concat, if_neg hfresh, ih has]

theorem eraseDups_append_eraseDups (as bs : List α) :
    (as ++ bs.eraseDups).eraseDups = (as ++ bs).eraseDups := by
  induction bs using List.reverseRecOn with
  | nil => rfl
  | append_singleton bs b ih =>
      rw [← List.append_assoc as bs, eraseDups_concat bs, eraseDups_concat (as ++ bs)]
      by_cases hb : b ∈ bs
      · simp [hb, ih]
      · simp only [List.contains_eq_mem, hb, decide_false, Bool.false_eq_true, if_false]
        rw [← List.append_assoc, eraseDups_concat, ih]
        simp [List.mem_eraseDups]

end EraseDups

/-! ## Groups in one pass -/

namespace OrderedMap

variable {ι κ α : Type} [DecidableEq κ]

theorem entries_eq_map_keys {m : OrderedMap κ α} {f : κ → α}
    (h : ∀ key ∈ m.keys, m.get? key = some (f key)) :
    m.entries = m.keys.map fun key => (key, f key) := by
  rw [keys, Entries.keys, List.map_map]
  refine (List.map_id m.entries).symm.trans (List.map_congr_left fun entry hentry => ?_)
  have hget := h entry.1 (List.mem_map_of_mem hentry)
  rw [get?_eq_some_iff.mpr hentry, Option.some_inj] at hget
  exact Prod.ext rfl hget

def group (key : ι → κ) (init : α) (step : α → ι → α) (xs : List ι) : OrderedMap κ α :=
  xs.foldl (fun groups x => groups.alter (key x) fun members => step (members.getD init) x) empty

variable (key : ι → κ) (init : α) (step : α → ι → α) (xs : List ι)

theorem group_concat (x : ι) :
    group key init step (xs ++ [x]) =
      (group key init step xs).alter (key x) fun members => step (members.getD init) x := by
  simp [group]

theorem keys_group : (group key init step xs).keys = (xs.map key).eraseDups := by
  induction xs using List.reverseRecOn with
  | nil => rfl
  | append_singleton xs x ih =>
      rw [group_concat, keys_alter, ih, List.map_append, List.map_singleton, eraseDups_concat]
      simp [List.mem_eraseDups]

theorem get?_group (name : κ) :
    (group key init step xs).get? name =
      if name ∈ xs.map key then some ((xs.filter (key · == name)).foldl step init) else none := by
  induction xs using List.reverseRecOn with
  | nil => rfl
  | append_singleton xs x ih =>
      rw [group_concat, get?_alter, ih]
      by_cases hx : key x = name
      · by_cases hmem : name ∈ xs.map key
        · simp [hx, hmem]
        · have hnil : xs.filter (key · == name) = [] := by
            refine List.filter_eq_nil_iff.mpr fun y hy heq => hmem ?_
            exact List.mem_map.mpr ⟨y, hy, beq_iff_eq.mp heq⟩
          simp [hx, hmem, hnil]
      · simp [hx, Ne.symm hx]

theorem entries_group :
    (group key init step xs).entries =
      (xs.map key).eraseDups.map fun name =>
        (name, (xs.filter (key · == name)).foldl step init) := by
  rw [← keys_group key init step xs]
  refine entries_eq_map_keys fun name hname => ?_
  rw [keys_group, List.mem_eraseDups] at hname
  rw [get?_group, if_pos hname]

end OrderedMap

namespace Dimension

theorem mergeValues_eraseDups (values more : List String) :
    mergeValues values.eraseDups more = (values ++ more).eraseDups := by
  induction more using List.reverseRecOn with
  | nil => simp [mergeValues]
  | append_singleton more value ih =>
      rw [← List.append_assoc, eraseDups_concat, ← ih]
      simp only [mergeValues, List.foldl_append, List.foldl_cons, List.foldl_nil]
      rw [← mergeValues, ih]
      simp [List.mem_eraseDups]

variable (d : Dimension)

/-! ## Values -/

theorem mem_itemsAt {register : Register} {domain : String} {item : Item} :
    item ∈ d.itemsAt register domain ↔
      item ∈ d.items ∧ item.register = register ∧ item.domain = domain := by
  simp only [itemsAt, itemsOf, List.mem_filter, beq_iff_eq, and_assoc]

theorem mem_values {register : Register} {domain value : String} :
    value ∈ d.values register domain ↔
      ∃ item ∈ d.items, item.register = register ∧ item.domain = domain ∧
        value ∈ item.values := by
  simp [values, List.mem_eraseDups, mem_itemsAt, and_assoc]

theorem nodup_values (register : Register) (domain : String) :
    (d.values register domain).Nodup :=
  nodup_eraseDups _

theorem hasValue_iff {register : Register} {domain value : String} :
    d.hasValue register domain value = true ↔ value ∈ d.values register domain := by
  simp [hasValue, mem_values, mem_itemsAt, and_assoc]

theorem hasDomain_iff {register : Register} {domain : String} :
    d.hasDomain register domain = true ↔
      ∃ item ∈ d.items, item.register = register ∧ item.domain = domain := by
  simp [hasDomain, itemsOf]

theorem hasDomain_of_mem_values {register : Register} {domain value : String}
    (h : value ∈ d.values register domain) : d.hasDomain register domain = true := by
  obtain ⟨item, hitem, hregister, hdomain, -⟩ := d.mem_values.mp h
  exact d.hasDomain_iff.mpr ⟨item, hitem, hregister, hdomain⟩

theorem mem_registers {register : Register} :
    register ∈ d.registers ↔ ∃ item ∈ d.items, item.register = register := by
  simp [registers, List.mem_eraseDups]

theorem nodup_registers : d.registers.Nodup := nodup_eraseDups _

theorem hasRegister_iff {register : Register} :
    d.hasRegister register = true ↔ register ∈ d.registers := by
  simp [hasRegister, mem_registers]

/-! ## Merged values -/

def offeredIn (merged : MergedValues) (register : Register) (domain : String) :
    Option (List String) :=
  (merged.get? register).bind fun domains => domains.get? domain

theorem values_of_not_hasDomain {register : Register} {domain : String}
    (h : d.hasDomain register domain = false) : d.values register domain = [] := by
  refine List.eq_nil_iff_forall_not_mem.mpr fun value hvalue => ?_
  rw [d.hasDomain_of_mem_values hvalue] at h
  cases h

theorem foldl_mergeValues (items : List Item) :
    items.foldl (fun values item => mergeValues values item.values) [] =
      (items.flatMap (·.values)).eraseDups := by
  induction items using List.reverseRecOn with
  | nil => rfl
  | append_singleton items item ih => simp [ih, mergeValues_eraseDups]

def domainsOf : List Item → Domains :=
  OrderedMap.group (·.domain) [] fun values item => mergeValues values item.values

theorem get?_domainsOf (register : Register) (domain : String) :
    (domainsOf (d.itemsOf register)).get? domain =
      if d.hasDomain register domain then some (d.values register domain) else none := by
  have hmem : domain ∈ (d.itemsOf register).map (·.domain) ↔
      d.hasDomain register domain = true := by
    simp [hasDomain]
  rw [domainsOf, OrderedMap.get?_group, foldl_mergeValues]
  simp only [hmem]
  rfl

theorem get?_mergedValues (register : Register) :
    d.mergedValues.get? register =
      if d.hasRegister register then some (domainsOf (d.itemsOf register)) else none := by
  have hmem : register ∈ d.items.map (·.register) ↔ d.hasRegister register = true := by
    simp [hasRegister]
  refine (OrderedMap.get?_group Item.register OrderedMap.empty (fun (domains : Domains) item =>
    domains.alter item.domain fun values => mergeValues (values.getD []) item.values)
    d.items register).trans ?_
  simp only [hmem]
  rfl

theorem offeredIn_mergedValues (register : Register) (domain : String) :
    offeredIn d.mergedValues register domain =
      if d.hasDomain register domain then some (d.values register domain) else none := by
  rw [offeredIn, get?_mergedValues]
  by_cases hregister : d.hasRegister register = true
  · rw [if_pos hregister]
    exact d.get?_domainsOf register domain
  · have hdomain : ¬ d.hasDomain register domain = true := by
      intro h
      obtain ⟨item, hitem, hat, -⟩ := d.hasDomain_iff.mp h
      exact hregister (d.hasRegister_iff.mpr (d.mem_registers.mpr ⟨item, hitem, hat⟩))
    rw [if_neg hregister, if_neg hdomain]
    rfl

/-! ## Resolution -/

/-- The domains are a single one of the register, with some of its values in their order. -/
def Offers (register : Register) (domains : Domains) : Prop :=
  ∃ domain values, domains = .single domain values ∧ d.hasDomain register domain = true ∧
    values.Sublist (d.values register domain)

private theorem offers_value {register : Register} {domain value : String}
    (h : d.hasValue register domain value = true) :
    d.Offers register (.single domain [value]) :=
  have hmem := d.hasValue_iff.mp h
  ⟨domain, [value], rfl, d.hasDomain_of_mem_values hmem, List.singleton_sublist.mpr hmem⟩

theorem offers_of_resolve? {register : Register} {name : List Char} {domains : Domains}
    (h : d.resolve? register name = some domains) : d.Offers register domains := by
  unfold resolve? at h
  split at h
  · next before after _ =>
      simp only [Option.ite_none_right_eq_some, Option.some.injEq] at h
      obtain ⟨hvalue, rfl⟩ := h
      exact d.offers_value hvalue
  · simp only at h
    split at h
    · next hdomain =>
        cases h
        exact ⟨_, _, rfl, hdomain, List.Sublist.refl _⟩
    · obtain ⟨domain, hfind, rfl⟩ := Option.map_eq_some_iff.mp h
      have hvalue := List.find?_some hfind
      exact d.offers_value hvalue

theorem resolve?_of_splitOnce {register : Register} {name before after : List Char}
    (h : Text.splitOnce '.' name = some (before, after)) :
    d.resolve? register name =
      if d.hasValue register (String.ofList before) (String.ofList after) = true then
        some (.single (String.ofList before) [String.ofList after])
      else none := by
  rw [resolve?, h]

theorem resolve?_of_hasDomain {register : Register} {name : List Char}
    (hpoint : Text.splitOnce '.' name = none)
    (hdomain : d.hasDomain register (String.ofList name) = true) :
    d.resolve? register name =
      some (.single (String.ofList name) (d.values register (String.ofList name))) := by
  rw [resolve?, hpoint]
  exact if_pos hdomain

theorem resolve_eq_ok_iff {register : Register} {name : List Char} {domains : Domains} :
    d.resolve register name = .ok domains ↔
      d.hasRegister register = true ∧ d.resolve? register name = some domains := by
  unfold resolve
  cases d.hasRegister register <;> cases d.resolve? register name <;> simp

end Dimension

end Variants
