import Variants.Config.Generation
import Variants.Proofs.Tuple

/-!
# Contexts that grow

A context is extended when it gets further keys, at any level, and keeps what it has.
A predicate that it satisfies stays satisfied: a key of the predicate that was passed
over is passed over again, and one that matched still does.  So what holds of the
dimensions set so far holds of every tuple that is generated from them.
-/

namespace Variants

namespace NestedSet

variable {mode : Containment} {key : String} {expected actual extended set middle : NestedSet}
  {predicate context larger : List (String × NestedSet)}

/-- The second set is the first one with further keys in some of its maps. -/
inductive ExtendsTo : NestedSet → NestedSet → Prop where
  | scalar (member : String) : ExtendsTo (.scalar member) (.scalar member)
  | list (members : List String) : ExtendsTo (.list members) (.list members)
  | map {context larger : List (String × NestedSet)}
      (hkeys : ∀ key ∈ Entries.keys context, key ∈ Entries.keys larger)
      (hsets : ∀ key set other, Entries.get? key context = some set →
        Entries.get? key larger = some other → ExtendsTo set other) :
      ExtendsTo (.map context) (.map larger)

theorem extendsTo_map_iff : (map context).ExtendsTo (map larger) ↔
    ∀ key set, Entries.get? key context = some set →
      ∃ other, Entries.get? key larger = some other ∧ set.ExtendsTo other := by
  constructor
  · rintro (_ | _ | ⟨hkeys, hsets⟩) key set hset
    obtain ⟨other, hother⟩ :=
      Entries.mem_keys_iff.mp (hkeys key (Entries.mem_keys_iff.mpr ⟨set, hset⟩))
    exact ⟨other, hother, hsets key set other hset hother⟩
  · intro h
    refine .map (fun key hkey => ?_) fun key set other hset hother => ?_
    · obtain ⟨set, hset⟩ := Entries.mem_keys_iff.mp hkey
      obtain ⟨other, hother, -⟩ := h key set hset
      exact Entries.mem_keys_iff.mpr ⟨other, hother⟩
    · obtain ⟨found, hfound, hextends⟩ := h key set hset
      cases hother.symm.trans hfound
      exact hextends

theorem ExtendsTo.refl (set : NestedSet) : set.ExtendsTo set := by
  induction set with
  | scalar member => exact .scalar member
  | list members => exact .list members
  | map entries ih =>
      refine extendsTo_map_iff.mpr fun key set hset => ?_
      exact ⟨set, hset, ih (key, set) (Entries.mem_of_get? hset)⟩

theorem ExtendsTo.trans (h : set.ExtendsTo middle) (hlater : middle.ExtendsTo extended) :
    set.ExtendsTo extended := by
  induction h generalizing extended with
  | scalar member => exact hlater
  | list members => exact hlater
  | map hkeys hsets ih =>
      cases hlater with
      | map hlaterKeys hlaterSets =>
          refine extendsTo_map_iff.mpr fun key set hset => ?_
          obtain ⟨between, hbetween, -⟩ := extendsTo_map_iff.mp (.map hkeys hsets) key set hset
          obtain ⟨last, hlast, hextends⟩ :=
            extendsTo_map_iff.mp (.map hlaterKeys hlaterSets) key between hbetween
          exact ⟨last, hlast, ih key set between hset hbetween hextends⟩

/-! ## Satisfied predicates -/

theorem outcome_mono {decided later : Option Bool} {rest others : Bool}
    (hundecided : decided = none → later = none) (hmatch : decided = some true → later = some true)
    (hrest : rest = true → others = true) (h : outcome mode decided rest = true) :
    outcome mode later others = true := by
  cases decided with
  | none =>
      rw [hundecided rfl]
      exact hrest h
  | some matched =>
      cases matched with
      | false => cases mode <;> cases h
      | true =>
          rw [hmatch rfl]
          cases mode with
          | firstKey => rfl
          | allKeys => exact hrest h

theorem ExtendsTo.decide?_eq_none (h : actual.ExtendsTo extended)
    (hundecided : decide? mode expected actual = none) :
    decide? mode expected extended = none := by
  obtain ⟨hscalar, hcontainer⟩ := decide?_eq_none_iff.mp hundecided
  refine decide?_eq_none_iff.mpr ⟨hscalar, fun member => ?_⟩
  cases h with
  | scalar other => exact absurd rfl (hcontainer other)
  | list members => nofun
  | map hkeys hsets => nofun

theorem contains_of_forall (h : (map context).ExtendsTo (map larger))
    (hmatch : ∀ entry ∈ predicate, ∀ {actual extended : NestedSet}, actual.ExtendsTo extended →
      decide? mode entry.2 actual = some true → decide? mode entry.2 extended = some true)
    (hcontains : contains mode predicate context = true) :
    contains mode predicate larger = true := by
  induction predicate with
  | nil => simp [contains]
  | cons entry rest ih =>
      obtain ⟨hfirst, hothers⟩ := List.forall_mem_cons.mp hmatch
      rw [contains_cons, Option.any_eq_true] at hcontains ⊢
      obtain ⟨actual, hactual, houtcome⟩ := hcontains
      obtain ⟨extended, hextended, hextends⟩ := extendsTo_map_iff.mp h entry.1 actual hactual
      exact ⟨extended, hextended,
        outcome_mono hextends.decide?_eq_none (hfirst hextends) (ih hothers) houtcome⟩

theorem ExtendsTo.decide?_eq_true (h : actual.ExtendsTo extended)
    (hmatch : decide? mode expected actual = some true) :
    decide? mode expected extended = some true := by
  -- A scalar or list of the context is there unchanged; only a map may be another one.
  induction expected generalizing actual extended with
  | scalar member =>
      cases h with
      | scalar other => exact hmatch
      | list members => exact hmatch
      | map hkeys hsets => cases hmatch
  | list members =>
      cases h with
      | scalar other => exact hmatch
      | list others => exact hmatch
      | map hkeys hsets => cases hmatch
  | map entries ih =>
      cases h with
      | scalar other => exact hmatch
      | list others => exact hmatch
      | map hkeys hsets =>
          simp only [decide?, Option.some.injEq] at hmatch ⊢
          exact contains_of_forall (.map hkeys hsets) ih hmatch

/-- In either mode a predicate that a context satisfies is satisfied by all its extensions. -/
theorem contains_of_extendsTo (mode : Containment)
    {predicate context larger : List (String × NestedSet)}
    (h : (map context).ExtendsTo (map larger))
    (hcontains : contains mode predicate context = true) :
    contains mode predicate larger = true :=
  contains_of_forall h (fun _ _ _ _ hextends => hextends.decide?_eq_true) hcontains

def zonedContext : List (String × NestedSet) :=
  [("tags", .list ["a"]), ("region", .map []),
    ("env", .map [("R2", .map [("zone", .scalar "z1")]),
      ("R0", .map [("dev", .scalar "d2"), ("qa", .scalar "q1")]), ("R1", .scalar "a")])]

theorem contains_of_extendsTo_zonedContext :
    (map slotContext).ExtendsTo (map zonedContext) ∧
      contains .allKeys slotPredicate slotContext = true ∧
      contains .allKeys slotPredicate zonedContext = true ∧
      contains .firstKey slotPredicate zonedContext = true := by
  have hdomain : (map [("dev", .scalar "d2")]).ExtendsTo
      (map [("dev", .scalar "d2"), ("qa", .scalar "q1")]) := by
    refine extendsTo_map_iff.mpr fun key set hset => ?_
    obtain ⟨rfl, rfl⟩ := by simpa using Entries.mem_of_get? hset
    exact ⟨_, rfl, .refl _⟩
  have hextends : (map slotContext).ExtendsTo (map zonedContext) := by
    refine extendsTo_map_iff.mpr fun key set hset => ?_
    obtain ⟨rfl, rfl⟩ := by simpa [slotContext] using Entries.mem_of_get? hset
    refine ⟨_, rfl, extendsTo_map_iff.mpr fun key set hset => ?_⟩
    rcases (by simpa using Entries.mem_of_get? hset) with ⟨rfl, rfl⟩ | ⟨rfl, rfl⟩
    · exact ⟨_, rfl, .refl _⟩
    · exact ⟨_, rfl, hdomain⟩
  have hall : contains .allKeys slotPredicate slotContext = true := by decide
  have hfirst : contains .firstKey slotPredicate slotContext = true := by decide
  exact ⟨hextends, hall, contains_of_extendsTo .allKeys hextends hall,
    contains_of_extendsTo .firstKey hextends hfirst⟩

end NestedSet

/-! ## Tuples that are not finished -/

theorem Tuple.extendsTo_insert {tuple : Tuple} {name : String} (h : name ∉ tuple.keys)
    (fragment : Fragment) :
    (NestedSet.map tuple.toContext).ExtendsTo
      (.map (Tuple.toContext (tuple.insert name fragment))) := by
  have hcontext : ∀ (tuple : Tuple) (key : String),
      Entries.get? key tuple.toContext = (tuple.get? key).map Fragment.toContext :=
    fun tuple key => Entries.get?_map Fragment.toContext key tuple.entries
  refine NestedSet.extendsTo_map_iff.mpr fun key set hset => ⟨set, ?_, .refl set⟩
  rw [hcontext] at hset ⊢
  obtain ⟨own, hown, rfl⟩ := Option.map_eq_some_iff.mp hset
  have hne : name ≠ key := by
    rintro rfl
    exact h (OrderedMap.mem_keys_iff.mpr ⟨own, hown⟩)
  rw [OrderedMap.get?_insert, if_neg hne, hown, Option.map_some]

namespace Config

variable {mode : Containment}

theorem extendsTo_of_mem_extend {order : List Dimension} {start tuple : Tuple}
    (hnodup : (order.map (·.name)).Nodup) (hfresh : ∀ d ∈ order, d.name ∉ start.keys)
    (h : tuple ∈ extend mode order start) :
    (NestedSet.map start.toContext).ExtendsTo (.map tuple.toContext) := by
  induction order generalizing start with
  | nil =>
      rw [List.mem_singleton.mp h]
      exact .refl _
  | cons d rest ih =>
      obtain ⟨fragment, -, h⟩ := List.mem_flatMap.mp h
      obtain ⟨hname, hrest⟩ := List.nodup_cons.mp hnodup
      obtain ⟨hfirst, hothers⟩ := List.forall_mem_cons.mp hfresh
      refine (Tuple.extendsTo_insert hfirst fragment).trans (ih hrest ?_ h)
      intro other hother hmem
      rw [OrderedMap.insert, OrderedMap.keys_alter, if_neg hfirst, List.mem_append,
        List.mem_singleton] at hmem
      rcases hmem with hmem | heq
      · exact hothers other hother hmem
      · exact hname (List.mem_map.mpr ⟨other, hother, heq⟩)

theorem allHold_of_mem_extend {order : List Dimension} {start tuple : Tuple}
    (hnodup : (order.map (·.name)).Nodup) (hfresh : ∀ d ∈ order, d.name ∉ start.keys)
    (h : tuple ∈ extend mode order start) {conditions : List Condition}
    (hall : allHold mode start.toContext conditions = true) :
    allHold mode tuple.toContext conditions = true := by
  have hextends := extendsTo_of_mem_extend hnodup hfresh h
  rw [allHold, List.all_eq_true] at hall ⊢
  intro condition hcondition
  exact NestedSet.contains_of_forall hextends (fun _ _ _ _ hlater => hlater.decide?_eq_true)
    (hall condition hcondition)

end Config

end Variants
