import Mathlib.Data.Nat.Init
import Variants.Proofs.Satisfaction
import Variants.Tuple

/-!
# What a tuple selects

A tuple is read through its selections.  Two tuples are the same when they cover
the same dimensions and select alike; a condition on a tuple looks at one
selection only.  The last part ties this to the nested context on which
conditions are tested while tuples are generated and products are rendered.
-/

namespace Variants

namespace Tuple

def chosen (tuple : Tuple) (dimension : String) : Option (Register → Option Selection) :=
  (tuple.get? dimension).map fun fragment register => fragment.get? register

theorem selection?_eq_chosen (tuple : Tuple) (dimension : String) (register : Register) :
    tuple.selection? dimension register =
      (tuple.chosen dimension).bind fun registers => registers register := by
  simp only [selection?, chosen]
  cases tuple.get? dimension <;> rfl

theorem chosen_insert (tuple : Tuple) (dimension other : String) (fragment : Fragment) :
    chosen (tuple.insert dimension fragment) other =
      if dimension = other then some fun register => fragment.get? register
      else tuple.chosen other := by
  simp only [chosen, OrderedMap.get?_insert]
  split <;> rfl

@[simp] theorem chosen_empty (dimension : String) :
    chosen OrderedMap.empty dimension = none := rfl

theorem chosen_isSome_iff {tuple : Tuple} {dimension : String} :
    (tuple.chosen dimension).isSome = true ↔ dimension ∈ tuple.keys := by
  rw [chosen, Option.isSome_map, Option.isSome_iff_exists, OrderedMap.mem_keys_iff]

/-! ## Sameness -/

theorem same_iff {a b : Tuple} :
    a.same b = true ↔ ∀ dimension, a.chosen dimension = b.chosen dimension := by
  have hkeys : a.same b = true ↔ a.size = b.size ∧
      ∀ name ∈ a.keys, a.chosen name = b.chosen name := by
    simp only [same, Bool.and_eq_true, beq_iff_eq, List.all_eq_true, OrderedMap.keys, Entries.keys,
      List.forall_mem_map]
    refine and_congr_right fun _ => forall₂_congr fun entry hmem => ?_
    rw [chosen, OrderedMap.get?_eq_some_iff.mpr hmem, chosen]
    cases b.get? entry.1 with
    | none => simp
    | some other => simp [OrderedMap.sameEntries_iff, funext_iff]
  rw [hkeys]
  constructor
  · rintro ⟨hsize, hall⟩ dimension
    have hsub : a.keys ⊆ b.keys := by
      intro name hname
      rw [← chosen_isSome_iff, ← hall name hname, chosen_isSome_iff]
      exact hname
    have hperm : a.keys.Perm b.keys :=
      (a.nodup_keys.subperm hsub).perm_of_length_le (by
        simpa [OrderedMap.keys, Entries.keys, OrderedMap.size] using Nat.le_of_eq hsize.symm)
    by_cases hname : dimension ∈ a.keys
    · exact hall dimension hname
    · have hother : dimension ∉ b.keys := fun hmem => hname (hperm.mem_iff.mpr hmem)
      rw [← chosen_isSome_iff, Option.not_isSome_iff_eq_none] at hname hother
      rw [hname, hother]
  · intro h
    have hperm : a.keys.Perm b.keys := by
      refine (List.perm_ext_iff_of_nodup a.nodup_keys b.nodup_keys).mpr fun name => ?_
      change name ∈ a.keys ↔ name ∈ b.keys
      rw [← chosen_isSome_iff, h name, chosen_isSome_iff]
    refine ⟨?_, fun name _ => h name⟩
    simpa [OrderedMap.keys, Entries.keys, OrderedMap.size] using hperm.length_eq

theorem same_refl (tuple : Tuple) : tuple.same tuple = true :=
  same_iff.mpr fun _ => rfl

theorem same_symm {a b : Tuple} (h : a.same b = true) : b.same a = true :=
  same_iff.mpr fun dimension => (same_iff.mp h dimension).symm

theorem same_trans {a b c : Tuple} (hab : a.same b = true) (hbc : b.same c = true) :
    a.same c = true :=
  same_iff.mpr fun dimension => (same_iff.mp hab dimension).trans (same_iff.mp hbc dimension)

theorem selection?_of_same {a b : Tuple} (h : a.same b = true) (dimension : String)
    (register : Register) : a.selection? dimension register = b.selection? dimension register := by
  rw [selection?_eq_chosen, selection?_eq_chosen, same_iff.mp h]

/-! ## Conditions on a tuple -/

end Tuple

namespace Condition

def allows (condition : Condition) (domain value : String) : Bool :=
  (condition.domains.get? domain).any fun values => values.contains value

theorem allows_of_single {condition : Condition} {domain : String} {values : List String}
    (h : condition.domains = .single domain values) (other value : String) :
    condition.allows other value = (domain == other && values.contains value) := by
  by_cases hother : domain = other <;> simp [allows, h, hother]

end Condition

namespace Tuple

/-- The tuple selects one of the condition's domains and one of the values listed for it. -/
def meets (tuple : Tuple) (condition : Condition) : Bool :=
  (tuple.selection? condition.dimension condition.register).any fun selection =>
    (condition.domains.get? selection.domain).any fun values => values.contains selection.value

theorem meets_congr {a b : Tuple} {condition : Condition}
    (h : a.selection? condition.dimension condition.register =
      b.selection? condition.dimension condition.register) :
    a.meets condition = b.meets condition := by
  rw [meets, meets, h]

theorem meets_of_same {a b : Tuple} (h : a.same b = true) (condition : Condition) :
    a.meets condition = b.meets condition :=
  meets_congr (selection?_of_same h _ _)

theorem meets_of_single {c : Condition} {domain : String} {values : List String}
    (h : c.domains = .single domain values) (tuple : Tuple) :
    tuple.meets c = (tuple.selection? c.dimension c.register).any fun selection =>
      domain == selection.domain && values.contains selection.value := by
  simp only [← Condition.allows_of_single h]
  rfl

theorem meets_of_singleton {tuple : Tuple} {c : Condition} {domain value : String}
    (h : c.domains = .single domain [value]) :
    tuple.meets c = true ↔ tuple.selection? c.dimension c.register = some ⟨domain, value⟩ := by
  rw [meets_of_single h]
  cases tuple.selection? c.dimension c.register with
  | none => simp
  | some selection =>
      obtain ⟨own, other⟩ := selection
      simp only [Option.any_some, Bool.and_eq_true, beq_iff_eq, List.contains_iff_mem,
        List.mem_singleton, Option.some.injEq, Selection.mk.injEq]
      exact and_congr_left fun _ => eq_comm

end Tuple

/-! ## Contexts -/

theorem Register.text_injective : Function.Injective Register.text := by
  intro a b h
  have hdigits : Nat.toDigits 10 a.index = Nat.toDigits 10 b.index := by
    have hlists := congrArg String.toList h
    simpa [Register.text, Nat.toList_repr] using hlists
  have hindex : a.index = b.index := by
    rw [← Nat.ofDigitChars_ten_toDigits (n := a.index), hdigits, Nat.ofDigitChars_ten_toDigits]
  cases a
  cases b
  exact congrArg Register.mk hindex

theorem NestedSet.contains_single (mode : Containment) (key : String)
    (expected context : List (String × NestedSet)) :
    contains mode [(key, .map expected)] context =
      ((Entries.get? key context).bind entries?).any (contains mode expected) := by
  rw [contains_singleton]
  cases Entries.get? key context with
  | none => rfl
  | some actual => cases actual <;> rfl

theorem Fragment.get?_toContext (fragment : Fragment) (register : Register) :
    Entries.get? register.text (fragment.entries.map fun entry =>
        (entry.1.text, NestedSet.map [(entry.2.domain, .scalar entry.2.value)])) =
      (fragment.get? register).map fun selection =>
        .map [(selection.domain, .scalar selection.value)] := by
  have hkey := Entries.get?_map_key Register.text_injective register
    (fragment.entries.map fun entry =>
      (entry.1, NestedSet.map [(entry.2.domain, .scalar entry.2.value)]))
  rw [List.map_map] at hkey
  refine hkey.trans ?_
  exact Entries.get?_map
    (fun selection : Selection => NestedSet.map [(selection.domain, .scalar selection.value)])
    register fragment.entries

theorem Condition.holdsIn_toContext (mode : Containment) (tuple : Tuple) (condition : Condition) :
    condition.holdsIn mode tuple.toContext =
      (tuple.selection? condition.dimension condition.register).any fun selection =>
        NestedSet.contains mode
          (condition.domains.entries.map fun entry => (entry.1, .list entry.2))
          [(selection.domain, .scalar selection.value)] := by
  have hname : Entries.get? condition.dimension tuple.toContext =
      (tuple.get? condition.dimension).map Fragment.toContext :=
    Entries.get?_map Fragment.toContext condition.dimension tuple.entries
  rw [Condition.holdsIn, Condition.toSet, NestedSet.contains_single, hname, Tuple.selection?]
  cases tuple.get? condition.dimension with
  | none => rfl
  | some fragment =>
      have hregister := Fragment.get?_toContext fragment condition.register
      simp only [Option.map_some, Option.bind_some, Fragment.toContext, NestedSet.entries?,
        Option.any_some, Domains.toSet, NestedSet.contains_single]
      rw [hregister]
      cases fragment.get? condition.register <;> rfl

theorem Condition.holdsIn_of_same (mode : Containment) {a b : Tuple} (h : a.same b = true)
    (condition : Condition) :
    condition.holdsIn mode a.toContext = condition.holdsIn mode b.toContext := by
  rw [Condition.holdsIn_toContext, Condition.holdsIn_toContext, Tuple.selection?_of_same h]

theorem Condition.holdsIn_toContext_of_single {condition : Condition} {domain : String}
    {values : List String} (h : condition.domains = .single domain values) (mode : Containment)
    (tuple : Tuple) : condition.holdsIn mode tuple.toContext = tuple.meets condition := by
  rw [Condition.holdsIn_toContext, Tuple.meets, h]
  congr 1
  funext selection
  simp only [OrderedMap.single, List.map_cons, List.map_nil, NestedSet.contains_singleton,
    OrderedMap.get?, Entries.get?]
  by_cases hdomain : selection.domain = domain
  · simp [hdomain, NestedSet.decide?_list_scalar]
  · simp [hdomain, Ne.symm hdomain]

theorem allHold_toContext {conditions : List Condition}
    (hsingle : ∀ c ∈ conditions, ∃ domain values, c.domains = .single domain values)
    (mode : Containment) (tuple : Tuple) :
    allHold mode tuple.toContext conditions = conditions.all tuple.meets := by
  refine Bool.eq_iff_iff.mpr ?_
  simp only [allHold, List.all_eq_true]
  refine forall₂_congr fun c hc => ?_
  obtain ⟨domain, values, hdomains⟩ := hsingle c hc
  rw [Condition.holdsIn_toContext_of_single hdomains]

/-! ## What a condition asks of a tuple -/

namespace Condition

theorem holdsIn_toContext_iff {mode : Containment} {tuple : Tuple} {condition : Condition} :
    condition.holdsIn mode tuple.toContext = true ↔
      ∃ selection, tuple.selection? condition.dimension condition.register = some selection ∧
        NestedSet.contains mode
          (condition.domains.entries.map fun entry => (entry.1, .list entry.2))
          [(selection.domain, .scalar selection.value)] = true := by
  rw [holdsIn_toContext]
  cases tuple.selection? condition.dimension condition.register <;> simp

/--
A condition asks for a selection in its register.  By the first key the domain
listed first decides alone; with all keys every listed domain has to be the
selected one, which two domains never are.
-/
theorem holdsIn_selection (condition : Condition) (tuple : Tuple) :
    (condition.holdsIn .firstKey tuple.toContext = true ↔
        ∃ selection, tuple.selection? condition.dimension condition.register = some selection ∧
          (condition.domains.entries = [] ∨
            ∃ values, condition.domains.entries.head? = some (selection.domain, values) ∧
              selection.value ∈ values)) ∧
      (condition.holdsIn .allKeys tuple.toContext = true ↔
        ∃ selection, tuple.selection? condition.dimension condition.register = some selection ∧
          ∀ entry ∈ condition.domains.entries,
            entry.1 = selection.domain ∧ selection.value ∈ entry.2) ∧
      (2 ≤ condition.domains.size → condition.holdsIn .allKeys tuple.toContext = false) := by
  have hall : condition.holdsIn .allKeys tuple.toContext = true ↔
      ∃ selection, tuple.selection? condition.dimension condition.register = some selection ∧
        ∀ entry ∈ condition.domains.entries,
          entry.1 = selection.domain ∧ selection.value ∈ entry.2 := by
    simp only [holdsIn_toContext_iff, NestedSet.contains_allKeys_lists]
  refine ⟨?_, hall, fun hsize => ?_⟩
  · simp only [holdsIn_toContext_iff, NestedSet.contains_firstKey_lists]
  · refine Bool.eq_false_iff.mpr fun hholds => ?_
    obtain ⟨selection, -, hentries⟩ := hall.mp hholds
    -- All listed domains are the selected one, and none is listed twice.
    have hkeys : condition.domains.keys =
        List.replicate condition.domains.keys.length selection.domain :=
      List.eq_replicate_of_mem (List.forall_mem_map.mpr fun entry he => (hentries entry he).1)
    have hnodup : condition.domains.keys.Nodup := condition.domains.nodup_keys
    rw [hkeys, List.nodup_replicate] at hnodup
    have hlength : condition.domains.keys.length = condition.domains.size := List.length_map ..
    omega

def anyStage : Condition where
  dimension := "env"
  register := ⟨0⟩
  domains := .ofList [("dev", ["d1", "d2"]), ("prod", ["p1"])]

theorem holdsIn_selection_anyStage :
    anyStage.holdsIn .firstKey (Tuple.toContext (.single "env" (.single ⟨0⟩ ⟨"dev", "d2"⟩))) =
        true ∧
      2 ≤ anyStage.domains.size ∧
      anyStage.holdsIn .allKeys (Tuple.toContext (.single "env" (.single ⟨0⟩ ⟨"dev", "d2"⟩))) =
        false := by
  have hselection : Tuple.selection? (.single "env" (.single ⟨0⟩ ⟨"dev", "d2"⟩))
      anyStage.dimension anyStage.register = some ⟨"dev", "d2"⟩ := by
    decide
  obtain ⟨hfirst, -, htwo⟩ :=
    holdsIn_selection anyStage (.single "env" (.single ⟨0⟩ ⟨"dev", "d2"⟩))
  have hsize : 2 ≤ anyStage.domains.size := by decide
  exact ⟨hfirst.mpr ⟨_, hselection, .inr ⟨["d1", "d2"], by decide, by decide⟩⟩, hsize, htwo hsize⟩

end Condition

end Variants
