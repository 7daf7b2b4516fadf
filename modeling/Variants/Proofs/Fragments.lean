import Mathlib.Algebra.BigOperators.Group.List.Basic
import Mathlib.Algebra.GroupWithZero.Nat
import Mathlib.Data.List.Count
import Variants.Dimension.Generation
import Variants.Proofs.Dimension
import Variants.Proofs.Tuple

/-!
# Fragments as choices

A fragment picks a selection for each register, independently of the others, so
it comes up as often as the product of the numbers of ways to pick each one.
In a context taken from a tuple these are the ways that items whose conditions
the tuple meets have to offer what it selects.
-/

namespace Variants

/-! ## Ways to offer a selection -/

/-- The positions at which the item offers the selection, if it counts for the tuple. -/
def Item.ways (tuple : Tuple) (register : Register) (selection : Selection) (item : Item) : Nat :=
  if item.register = register ∧ item.domain = selection.domain ∧ item.conditions.all tuple.meets
  then item.values.count selection.value
  else 0

def Dimension.ways (tuple : Tuple) (d : Dimension) (register : Register) : Nat :=
  match tuple.selection? d.name register with
  | none => 0
  | some selection => (d.items.map (Item.ways tuple register selection)).sum

theorem Item.ways_pos_iff {tuple : Tuple} {register : Register} {selection : Selection}
    {item : Item} :
    0 < item.ways tuple register selection ↔
      item.register = register ∧ item.domain = selection.domain ∧
        selection.value ∈ item.values ∧ ∀ c ∈ item.conditions, tuple.meets c = true := by
  unfold ways
  split
  · next h =>
      rw [List.count_pos_iff]
      exact ⟨fun hvalue => ⟨h.1, h.2.1, hvalue, List.all_eq_true.mp h.2.2⟩, fun hall => hall.2.2.1⟩
  · next h =>
      simp only [Nat.lt_irrefl, false_iff]
      rintro ⟨hregister, hdomain, -, hconditions⟩
      exact h ⟨hregister, hdomain, List.all_eq_true.mpr hconditions⟩

theorem Dimension.ways_pos_iff {tuple : Tuple} {d : Dimension} {register : Register} :
    0 < d.ways tuple register ↔
      ∃ selection, tuple.selection? d.name register = some selection ∧ ∃ item ∈ d.items,
        item.register = register ∧ item.domain = selection.domain ∧
          selection.value ∈ item.values ∧ ∀ c ∈ item.conditions, tuple.meets c = true := by
  unfold ways
  cases tuple.selection? d.name register with
  | none => simp
  | some selection =>
      simp [List.sum_pos_iff_exists_pos_nat, Item.ways_pos_iff]

theorem sum_map_ite {α : Type} (p : α → Bool) (n : Nat) (xs : List α) :
    (xs.map fun x => if p x then n else 0).sum = xs.countP p * n := by
  induction xs with
  | nil => simp
  | cons x xs ih =>
      cases h : p x <;> simp [h, ih, Nat.add_mul, Nat.add_comm]

/-! ## Fragments -/

namespace Dimension

variable {d : Dimension} {mode : Containment} {context : List (String × NestedSet)}

theorem count_selections (register : Register) (selection : Selection) :
    (d.selections mode context register).count selection =
      (d.items.map fun item =>
        if item.register = register ∧ item.domain = selection.domain ∧
          allHold mode context item.conditions = true
        then item.values.count selection.value
        else 0).sum := by
  have hvalues : ∀ (domain : String) (values : List String),
      (values.map fun value => (⟨domain, value⟩ : Selection)).count selection =
        if domain = selection.domain then values.count selection.value else 0 := by
    intro domain values
    obtain ⟨own, value⟩ := selection
    induction values with
    | nil => simp
    | cons first rest ih =>
        rw [List.map_cons, List.count_cons, ih, List.count_cons]
        by_cases hdomain : domain = own <;> simp [hdomain]
  unfold selections allowedItems itemsOf
  induction d.items with
  | nil => rfl
  | cons item items ih =>
      rw [List.map_cons, List.sum_cons, ← ih]
      by_cases hregister : item.register = register
      · by_cases hall : allHold mode context item.conditions = true <;>
          simp [hregister, hall, hvalues]
      · simp [hregister]

def choices (d : Dimension) (mode : Containment) (context : List (String × NestedSet))
    (target : Fragment) (register : Register) : Nat :=
  (d.selections mode context register).countP fun selection =>
    target.get? register = some selection

theorem get?_of_mem_extend {registers : List Register} {start fragment : Fragment}
    (h : fragment ∈ d.extend mode context registers start) {register : Register}
    (hregister : register ∉ registers) : fragment.get? register = start.get? register := by
  induction registers generalizing start with
  | nil => rw [List.mem_singleton.mp h]
  | cons first rest ih =>
      obtain ⟨selection, -, h⟩ := List.mem_flatMap.mp h
      have hne : first ≠ register := fun heq => hregister (heq ▸ List.mem_cons_self)
      rw [ih h fun hmem => hregister (List.mem_cons_of_mem _ hmem), OrderedMap.get?_insert,
        if_neg hne]

theorem countP_extend {registers : List Register} (hnodup : registers.Nodup) {target : Fragment}
    {start : Fragment}
    (hstart : ∀ register ∉ registers, start.get? register = target.get? register) :
    (d.extend mode context registers start).countP (·.sameEntries target) =
      (registers.map (d.choices mode context target)).prod := by
  induction registers generalizing start with
  | nil =>
      have hsame : start.sameEntries target = true :=
        OrderedMap.sameEntries_iff.mpr fun register => hstart register List.not_mem_nil
      simp [extend, hsame]
  | cons register rest ih =>
      obtain ⟨hfresh, hrest⟩ := List.nodup_cons.mp hnodup
      have hstep : ∀ selection,
          (d.extend mode context rest (start.insert register selection)).countP
              (·.sameEntries target) =
            if target.get? register = some selection
            then (rest.map (d.choices mode context target)).prod
            else 0 := by
        intro selection
        split
        · next htarget =>
            refine ih hrest fun other hother => ?_
            rw [OrderedMap.get?_insert]
            split
            · next heq => rw [← heq, htarget]
            · next hne =>
                refine hstart other fun hmem => ?_
                rcases List.mem_cons.mp hmem with heq | hmem
                · exact hne heq.symm
                · exact hother hmem
        · next htarget =>
            refine List.countP_eq_zero.mpr fun fragment hfragment hsame => htarget ?_
            rw [← OrderedMap.sameEntries_iff.mp hsame register,
              get?_of_mem_extend hfragment hfresh, OrderedMap.get?_insert, if_pos rfl]
      rw [extend, List.countP_flatMap, List.map_cons, List.prod_cons, choices, ← sum_map_ite]
      refine congrArg List.sum (List.map_congr_left fun selection _ => ?_)
      simpa using hstep selection

/-- There are items, and the fragment sets their registers and no others. -/
def Covers (d : Dimension) (fragment : Fragment) : Prop :=
  d.items ≠ [] ∧ ∀ register, register ∈ fragment.keys ↔ register ∈ d.registers

theorem Covers.congr {a b : Fragment} (h : d.Covers a)
    (hget : ∀ register, a.get? register = b.get? register) : d.Covers b := by
  refine ⟨h.1, fun register => ?_⟩
  rw [← h.2, OrderedMap.mem_keys_iff, OrderedMap.mem_keys_iff, hget]

theorem registers_eq_nil_iff : d.registers = [] ↔ d.items = [] := by
  constructor
  · intro h
    refine List.eq_nil_iff_forall_not_mem.mpr fun item hitem => ?_
    have hmem : item.register ∈ d.registers := d.mem_registers.mpr ⟨item, hitem, rfl⟩
    rw [h] at hmem
    cases hmem
  · intro h
    simp [registers, h]

theorem covers_iff_of_registers {other : Dimension}
    (h : ∀ register, register ∈ d.registers ↔ register ∈ other.registers) (fragment : Fragment) :
    d.Covers fragment ↔ other.Covers fragment := by
  have hnil : d.registers = [] ↔ other.registers = [] := by
    simp only [List.eq_nil_iff_forall_not_mem, h]
  unfold Covers
  simp only [Ne, ← registers_eq_nil_iff, hnil, h]

theorem fragments_eq (h : d.items ≠ []) :
    d.fragments mode context = d.extend mode context d.registers OrderedMap.empty := by
  unfold fragments
  split
  · next hnil => exact absurd (registers_eq_nil_iff.mp hnil) h
  · rfl

theorem fragments_of_items_eq_nil (h : d.items = []) : d.fragments mode context = [] := by
  unfold fragments
  rw [registers_eq_nil_iff.mpr h]

theorem countP_fragments {target : Fragment} (h : d.Covers target) :
    (d.fragments mode context).countP (·.sameEntries target) =
      (d.registers.map (d.choices mode context target)).prod := by
  rw [fragments_eq h.1]
  refine countP_extend d.nodup_registers fun register hregister => ?_
  rw [OrderedMap.get?_empty, eq_comm, OrderedMap.get?_eq_none_iff, h.2]
  exact hregister

theorem covers_of_mem_fragments {fragment : Fragment} (h : fragment ∈ d.fragments mode context) :
    d.Covers fragment := by
  have hitems : d.items ≠ [] := by
    intro hnil
    rw [fragments_of_items_eq_nil hnil] at h
    cases h
  rw [fragments_eq hitems] at h
  have hstart : ∀ register ∉ d.registers,
      (OrderedMap.empty : Fragment).get? register = fragment.get? register :=
    fun register hregister => (get?_of_mem_extend h hregister).symm
  refine ⟨hitems, fun register => ⟨fun hkey => ?_, fun hregister => ?_⟩⟩
  · by_contra hnot
    exact OrderedMap.get?_eq_none_iff.mp (hstart register hnot).symm hkey
  · -- The fragment is counted among its own matches, so each register has a choice.
    have hpos : 0 < (d.extend mode context d.registers OrderedMap.empty).countP
        (·.sameEntries fragment) :=
      List.countP_pos_iff.mpr ⟨fragment, h, OrderedMap.sameEntries_iff.mpr fun _ => rfl⟩
    rw [countP_extend d.nodup_registers hstart, List.prod_pos_iff_forall_pos_nat,
      List.forall_mem_map] at hpos
    obtain ⟨selection, -, hselection⟩ := List.countP_pos_iff.mp (hpos register hregister)
    exact OrderedMap.mem_keys_iff.mpr ⟨selection, by simpa using hselection⟩

theorem fragments_congr {other : Containment} {others : List (String × NestedSet)}
    (h : ∀ item ∈ d.items,
      allHold mode context item.conditions = allHold other others item.conditions) :
    d.fragments mode context = d.fragments other others := by
  have hselections : ∀ register,
      d.selections mode context register = d.selections other others register := by
    intro register
    unfold selections allowedItems
    congr 1
    exact List.filter_congr fun item hitem => h item (List.mem_of_mem_filter hitem)
  have hextend : ∀ (registers : List Register) (start : Fragment),
      d.extend mode context registers start = d.extend other others registers start := by
    intro registers
    induction registers with
    | nil => exact fun _ => rfl
    | cons register rest ih =>
        intro start
        simp only [extend, hselections, ih]
  unfold fragments
  cases d.registers with
  | nil => rfl
  | cons register rest => exact hextend _ _

def matching (d : Dimension) (mode : Containment) (tuple : Tuple) : Nat :=
  (d.fragments mode tuple.toContext).countP fun fragment =>
    (tuple.get? d.name).any fragment.sameEntries

theorem any_sameEntries_iff {tuple : Tuple} {fragment : Fragment} :
    (tuple.get? d.name).any fragment.sameEntries = true ↔
      tuple.chosen d.name = some fun register => fragment.get? register := by
  rw [Tuple.chosen]
  cases tuple.get? d.name with
  | none => simp
  | some other =>
      simp only [Option.any_some, Option.map_some, Option.some.injEq, OrderedMap.sameEntries_iff,
        funext_iff]
      exact forall_congr' fun _ => eq_comm

theorem covers_of_matching_pos {tuple : Tuple} (h : 0 < d.matching mode tuple) :
    ∃ fragment, tuple.get? d.name = some fragment ∧ d.Covers fragment := by
  obtain ⟨fragment, hfragment, hmatch⟩ := List.countP_pos_iff.mp h
  obtain ⟨other, hother, hsame⟩ :=
    Option.map_eq_some_iff.mp (any_sameEntries_iff.mp hmatch)
  refine ⟨other, hother, (covers_of_mem_fragments hfragment).congr fun register => ?_⟩
  exact (congrFun hsame register).symm

/-! ### On a tuple that covers the dimension -/

theorem choices_eq_ways {tuple : Tuple} {fragment : Fragment}
    (hget : tuple.get? d.name = some fragment)
    (hsingle : ∀ item ∈ d.items, ∀ c ∈ item.conditions,
      ∃ domain values, c.domains = .single domain values) (register : Register) :
    d.choices mode tuple.toContext fragment register = d.ways tuple register := by
  unfold choices ways
  rw [Tuple.selection?, hget, Option.bind_some]
  cases hselection : fragment.get? register with
  | none => simp
  | some selection =>
      have hcount : ((d.selections mode tuple.toContext register).countP fun other =>
          some selection = some other) =
            (d.selections mode tuple.toContext register).count selection :=
        List.countP_congr fun other _ => by
          simp only [Option.some.injEq, decide_eq_true_eq, beq_iff_eq]
          exact eq_comm
      rw [hcount, count_selections]
      refine congrArg List.sum (List.map_congr_left fun item hitem => ?_)
      rw [Item.ways, allHold_toContext (hsingle item hitem)]

theorem matching_eq_prod_ways {tuple : Tuple} {fragment : Fragment}
    (hget : tuple.get? d.name = some fragment) (hcovers : d.Covers fragment)
    (hsingle : ∀ item ∈ d.items, ∀ c ∈ item.conditions,
      ∃ domain values, c.domains = .single domain values) :
    d.matching mode tuple = (d.registers.map (d.ways tuple)).prod := by
  unfold matching
  rw [hget]
  simp only [Option.any_some]
  rw [countP_fragments hcovers]
  refine congrArg List.prod (List.map_congr_left fun register _ => ?_)
  exact choices_eq_ways hget hsingle register

end Dimension

end Variants
