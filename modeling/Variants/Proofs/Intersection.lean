import Variants.Proofs.OrderedMap

/-!
# The algebra of intersection

Intersection is associative to the last detail, commutative up to the order in
which keys and members are listed, and leaves a set alone that has no empty part.
That nothing is in common is passed upwards: a key goes with its set, and a map
with its last key.
-/

namespace Variants

namespace NestedSet

variable {a b c common : NestedSet} {left middle right : List (String × NestedSet)}

/-! ## One level -/

theorem intersect_list (members others : List String) :
    intersect (.list members) (.list others) = (Domains.shared? others members).map .list := by
  rw [intersect, Domains.shared?]
  cases members.filter others.contains <;> simp

theorem intersect_map (left right : List (String × NestedSet)) :
    intersect (.map left) (.map right) =
      if intersectEntries left right = [] then none
      else some (.map (intersectEntries left right)) := by
  rw [intersect]
  cases intersectEntries left right <;> simp

/-- The last set is what the first two have in common, in the order of the first. -/
inductive IsCommon : NestedSet → NestedSet → NestedSet → Prop where
  | scalar (member : String) : IsCommon (.scalar member) (.scalar member) (.scalar member)
  | list {members others common : List String} (hcommon : members.filter others.contains = common)
      (hne : common ≠ []) : IsCommon (.list members) (.list others) (.list common)
  | map {left right common : List (String × NestedSet)}
      (hcommon : intersectEntries left right = common) (hne : common ≠ []) :
      IsCommon (.map left) (.map right) (.map common)

theorem intersect_eq_some_iff : a.intersect b = some common ↔ a.IsCommon b common := by
  constructor
  · intro h
    cases a <;> cases b <;> try cases h
    next member other =>
      rw [intersect] at h
      obtain ⟨heq, h⟩ := Option.ite_none_right_eq_some.mp h
      cases h
      exact heq ▸ .scalar member
    next members others =>
      rw [intersect_list, Option.map_eq_some_iff] at h
      obtain ⟨common, hshared, rfl⟩ := h
      obtain ⟨hcommon, hne⟩ := Domains.shared?_eq_some_iff.mp hshared
      exact .list hcommon hne
    next left right =>
      rw [intersect_map] at h
      obtain ⟨hne, h⟩ := Option.ite_none_left_eq_some.mp h
      cases h
      exact .map rfl hne
  · rintro (member | ⟨hcommon, hne⟩ | ⟨rfl, hne⟩)
    · simp [intersect]
    · rw [intersect_list, Domains.shared?_eq_some_iff.mpr ⟨hcommon, hne⟩, Option.map_some]
    · rw [intersect_map, if_neg hne]

theorem intersectEntries_eq_filterMap (left right : List (String × NestedSet)) :
    intersectEntries left right =
      Entries.filterMap (fun key set => (Entries.get? key right).bind set.intersect) left := by
  induction left with
  | nil => simp [intersectEntries, Entries.filterMap]
  | cons entry rest ih =>
      obtain ⟨key, set⟩ := entry
      simp only [Entries.filterMap] at ih
      cases hcommon : (Entries.get? key right).bind set.intersect <;>
        simp only [intersectEntries, Entries.filterMap, List.filterMap_cons, hcommon,
          Option.map_none, Option.map_some, ih]

theorem get?_intersectEntries (hnodup : (Entries.keys left).Nodup) (key : String) :
    Entries.get? key (intersectEntries left right) =
      (Entries.get? key left).bind fun set => (Entries.get? key right).bind set.intersect := by
  rw [intersectEntries_eq_filterMap, Entries.get?_filterMap _ hnodup]

theorem exists_of_mem_intersectEntries {entry : String × NestedSet}
    (h : entry ∈ intersectEntries left right) :
    ∃ source ∈ left, ∃ other, Entries.get? source.1 right = some other ∧
      source.2.intersect other = some entry.2 := by
  rw [intersectEntries_eq_filterMap, Entries.filterMap, List.mem_filterMap] at h
  obtain ⟨source, hsource, h⟩ := h
  obtain ⟨common, hcommon, rfl⟩ := Option.map_eq_some_iff.mp h
  obtain ⟨other, hother, hcommon⟩ := Option.bind_eq_some_iff.mp hcommon
  exact ⟨source, hsource, other, hother, hcommon⟩

theorem nodup_keys_intersectEntries (hnodup : (Entries.keys left).Nodup) :
    (Entries.keys (intersectEntries left right)).Nodup := by
  rw [intersectEntries_eq_filterMap]
  exact hnodup.sublist (Entries.keys_filterMap_sublist _ left)

theorem intersectEntries_nil : intersectEntries left [] = [] := by
  simp [intersectEntries_eq_filterMap, Entries.filterMap]

theorem UniqueKeys.of_get? (h : (NestedSet.map left).UniqueKeys) {key : String} {set : NestedSet}
    (hset : Entries.get? key left = some set) : set.UniqueKeys :=
  uniqueKeysOfEntries_iff.mp h.2 _ (Entries.mem_of_get? hset)

/-! ## Association -/

theorem filter_contains_filter (members others more : List String) :
    members.filter (others.filter more.contains).contains =
      (members.filter others.contains).filter more.contains := by
  rw [List.filter_filter]
  refine List.filter_congr fun member _ => ?_
  rw [Bool.eq_iff_iff]
  simp [and_comm]

theorem intersect_assoc_of_entries
    (hentries : ∀ left middle right, a = .map left → b = .map middle → c = .map right →
      intersectEntries (intersectEntries left middle) right =
        intersectEntries left (intersectEntries middle right)) :
    (a.intersect b).bind (·.intersect c) = (b.intersect c).bind a.intersect := by
  refine Option.ext fun common => ?_
  simp only [Option.bind_eq_some_iff, intersect_eq_some_iff]
  -- An intersection with nothing is nothing, so what is left in the end was left before.
  constructor
  · rintro ⟨_, hab, hcommon⟩
    cases hab with
    | scalar member =>
        cases hcommon
        exact ⟨_, .scalar member, .scalar member⟩
    | @list members others _ hab _ =>
        cases hcommon with
        | @list _ more _ hcommon hne =>
            rw [← hab, ← filter_contains_filter] at hcommon
            refine ⟨_, .list rfl fun hnil => hne ?_, .list hcommon hne⟩
            rw [← hcommon, hnil, List.filter_eq_nil_iff]
            simp
    | @map left middle _ hab _ =>
        cases hcommon with
        | @map _ right _ hcommon hne =>
            rw [← hab, hentries left middle right rfl rfl rfl] at hcommon
            refine ⟨_, .map rfl fun hnil => hne ?_, .map hcommon hne⟩
            rw [← hcommon, hnil, intersectEntries_nil]
  · rintro ⟨_, hbc, hcommon⟩
    cases hbc with
    | scalar member =>
        cases hcommon
        exact ⟨_, .scalar member, .scalar member⟩
    | @list others more _ hbc _ =>
        cases hcommon with
        | @list members _ _ hcommon hne =>
            rw [← hbc, filter_contains_filter] at hcommon
            refine ⟨_, .list rfl fun hnil => hne ?_, .list hcommon hne⟩
            rw [← hcommon, hnil, List.filter_nil]
    | @map middle right _ hbc _ =>
        cases hcommon with
        | @map left _ _ hcommon hne =>
            rw [← hbc, ← hentries left middle right rfl rfl rfl] at hcommon
            refine ⟨_, .map rfl fun hnil => hne ?_, .map hcommon hne⟩
            rw [← hcommon, hnil, intersectEntries]

theorem intersectEntries_assoc (hmiddle : (NestedSet.map middle).UniqueKeys)
    (hassoc : ∀ entry ∈ left, ∀ {b c : NestedSet}, b.UniqueKeys →
      (entry.2.intersect b).bind (·.intersect c) = (b.intersect c).bind entry.2.intersect) :
    intersectEntries (intersectEntries left middle) right =
      intersectEntries left (intersectEntries middle right) := by
  rw [intersectEntries_eq_filterMap (intersectEntries left middle),
    intersectEntries_eq_filterMap left middle, Entries.filterMap_filterMap,
    intersectEntries_eq_filterMap left (intersectEntries middle right)]
  refine Entries.filterMap_congr fun entry hentry => ?_
  rw [get?_intersectEntries hmiddle.1]
  cases hset : Entries.get? entry.1 middle with
  | none => rfl
  | some set =>
      cases hother : Entries.get? entry.1 right with
      | none => simp
      | some other => exact hassoc entry hentry (hmiddle.of_get? hset)

theorem intersect_assoc (hb : b.UniqueKeys) :
    (a.intersect b).bind (·.intersect c) = (b.intersect c).bind a.intersect := by
  induction a generalizing b c with
  | scalar member => exact intersect_assoc_of_entries nofun
  | list members => exact intersect_assoc_of_entries nofun
  | map entries ih =>
      refine intersect_assoc_of_entries fun left middle right hleft hmiddle hright => ?_
      cases hleft
      cases hmiddle
      exact intersectEntries_assoc hb ih

/-! ## Exchange -/

/-- The same keys at every map and the same members in every list, in whatever order. -/
inductive SameMembers : NestedSet → NestedSet → Prop where
  | scalar (member : String) : SameMembers (.scalar member) (.scalar member)
  | list {members others : List String} (hmembers : ∀ member, member ∈ members ↔ member ∈ others) :
      SameMembers (.list members) (.list others)
  | map {left right : List (String × NestedSet)}
      (hkeys : ∀ key, key ∈ Entries.keys left ↔ key ∈ Entries.keys right)
      (hsets : ∀ key first second, Entries.get? key left = some first →
        Entries.get? key right = some second → SameMembers first second) :
      SameMembers (.map left) (.map right)

theorem intersect_sameMembers_of_list (members others : List String) :
    Option.Rel SameMembers (intersect (.list members) (.list others))
      (intersect (.list others) (.list members)) := by
  have hmem : ∀ member, member ∈ members.filter others.contains ↔
      member ∈ others.filter members.contains := by
    simp [and_comm]
  have hnil : members.filter others.contains = [] ↔ others.filter members.contains = [] := by
    simp only [List.eq_nil_iff_forall_not_mem, hmem]
  rw [intersect_list, intersect_list, Domains.shared?, Domains.shared?]
  by_cases h : members.filter others.contains = []
  · rw [if_pos h, if_pos (hnil.mp h)]
    exact .none
  · rw [if_neg h, if_neg (mt hnil.mpr h)]
    exact .some (.list hmem)

theorem intersect_sameMembers_of_entries
    (hsame : ∀ key, Option.Rel SameMembers (Entries.get? key (intersectEntries left right))
      (Entries.get? key (intersectEntries right left))) :
    Option.Rel SameMembers (intersect (.map left) (.map right))
      (intersect (.map right) (.map left)) := by
  have hkeys : ∀ key, key ∈ Entries.keys (intersectEntries left right) ↔
      key ∈ Entries.keys (intersectEntries right left) := by
    intro key
    have hsame := hsame key
    rw [Entries.mem_keys_iff, Entries.mem_keys_iff]
    generalize Entries.get? key (intersectEntries left right) = first at hsame ⊢
    generalize Entries.get? key (intersectEntries right left) = second at hsame ⊢
    cases hsame <;> simp
  have hnil : intersectEntries left right = [] ↔ intersectEntries right left = [] := by
    have hkeys_nil : Entries.keys (intersectEntries left right) = [] ↔
        Entries.keys (intersectEntries right left) = [] := by
      simp only [List.eq_nil_iff_forall_not_mem, hkeys]
    simpa only [Entries.keys, List.map_eq_nil_iff] using hkeys_nil
  rw [intersect_map, intersect_map]
  by_cases h : intersectEntries left right = []
  · rw [if_pos h, if_pos (hnil.mp h)]
    exact .none
  · rw [if_neg h, if_neg (mt hnil.mpr h)]
    refine .some (.map hkeys fun key first second hfirst hsecond => ?_)
    have hsame := hsame key
    rw [hfirst, hsecond] at hsame
    cases hsame
    assumption

theorem intersect_sameMembers (ha : a.UniqueKeys) (hb : b.UniqueKeys) :
    Option.Rel SameMembers (a.intersect b) (b.intersect a) := by
  induction a generalizing b with
  | scalar member =>
      cases b with
      | scalar other =>
          by_cases heq : member = other
          · rw [heq, intersect, if_pos rfl]
            exact .some (.scalar other)
          · rw [intersect, intersect, if_neg heq, if_neg (Ne.symm heq)]
            exact .none
      | list others => exact .none
      | map right => exact .none
  | list members =>
      cases b with
      | scalar other => exact .none
      | list others => exact intersect_sameMembers_of_list members others
      | map right => exact .none
  | map left ih =>
      cases b with
      | scalar other => exact .none
      | list others => exact .none
      | map right =>
          refine intersect_sameMembers_of_entries fun key => ?_
          rw [get?_intersectEntries ha.1, get?_intersectEntries hb.1]
          cases hset : Entries.get? key left with
          | none => cases Entries.get? key right <;> exact .none
          | some set =>
              cases hother : Entries.get? key right with
              | none => exact .none
              | some other =>
                  exact ih _ (Entries.mem_of_get? hset) (ha.of_get? hset) (hb.of_get? hother)

/-! ## Empty parts -/

inductive Populated : NestedSet → Prop where
  | scalar (member : String) : Populated (.scalar member)
  | list {members : List String} (hne : members ≠ []) : Populated (.list members)
  | map {entries : List (String × NestedSet)} (hne : entries ≠ [])
      (hentries : ∀ entry ∈ entries, Populated entry.2) : Populated (.map entries)

@[simp] theorem populated_scalar (member : String) : (NestedSet.scalar member).Populated :=
  .scalar member

@[simp] theorem populated_list_iff {members : List String} :
    (NestedSet.list members).Populated ↔ members ≠ [] :=
  ⟨fun | .list hne => hne, .list⟩

@[simp] theorem populated_map_iff {entries : List (String × NestedSet)} :
    (NestedSet.map entries).Populated ↔
      entries ≠ [] ∧ ∀ entry ∈ entries, entry.2.Populated :=
  ⟨fun | .map hne hentries => ⟨hne, hentries⟩, fun h => .map h.1 h.2⟩

theorem populated_of_intersect (h : a.intersect b = some common) : common.Populated := by
  induction a generalizing b common with
  | scalar member =>
      cases intersect_eq_some_iff.mp h
      exact .scalar member
  | list members =>
      cases intersect_eq_some_iff.mp h with
      | list _ hne => exact .list hne
  | map left ih =>
      cases intersect_eq_some_iff.mp h with
      | map hcommon hne =>
          refine .map hne fun entry hentry => ?_
          obtain ⟨source, hsource, other, -, hset⟩ :=
            exists_of_mem_intersectEntries (hcommon ▸ hentry)
          exact ih source hsource hset

theorem uniqueKeys_of_intersect (ha : a.UniqueKeys) (h : a.intersect b = some common) :
    common.UniqueKeys := by
  induction a generalizing b common with
  | scalar member =>
      cases intersect_eq_some_iff.mp h
      exact ha
  | list members =>
      cases intersect_eq_some_iff.mp h
      exact ha
  | map left ih =>
      cases intersect_eq_some_iff.mp h with
      | map hcommon _ =>
          subst hcommon
          refine ⟨nodup_keys_intersectEntries ha.1, ?_⟩
          refine uniqueKeysOfEntries_iff.mpr fun entry hentry => ?_
          obtain ⟨source, hsource, other, -, hset⟩ := exists_of_mem_intersectEntries hentry
          exact ih source hsource (uniqueKeysOfEntries_iff.mp ha.2 source hsource) hset

theorem intersect_self (ha : a.UniqueKeys) (hpopulated : a.Populated) :
    a.intersect a = some a := by
  rw [intersect_eq_some_iff]
  induction hpopulated with
  | scalar member => exact .scalar member
  | @list members hne => exact .list (List.filter_eq_self.mpr (by simp)) hne
  | @map entries hne hentries ih =>
      have hself : ∀ entry ∈ entries,
          (Entries.get? entry.1 entries).bind entry.2.intersect = some entry.2 := by
        intro entry hentry
        have hunique := uniqueKeysOfEntries_iff.mp ha.2 entry hentry
        rw [Entries.get?_of_mem ha.1 hentry]
        exact intersect_eq_some_iff.mpr (ih entry hentry hunique)
      have hentries : intersectEntries entries entries =
          Entries.filterMap (fun _ set => some set) entries := by
        rw [intersectEntries_eq_filterMap]
        exact Entries.filterMap_congr hself
      refine .map ?_ hne
      simpa [Entries.filterMap] using hentries

/--
Sets form a semilattice under intersection, up to the order in which the second
one lists things.  Nothing in common counts as a result here, and no other result
has an empty part.
-/
theorem intersect_semilattice (ha : a.UniqueKeys) (hb : b.UniqueKeys) :
    (a.intersect b).bind (·.intersect c) = (b.intersect c).bind a.intersect ∧
      Option.Rel SameMembers (a.intersect b) (b.intersect a) ∧
      (∀ common, a.intersect b = some common → common.UniqueKeys ∧ common.Populated) ∧
      (a.Populated → a.intersect a = some a) :=
  ⟨intersect_assoc hb, intersect_sameMembers ha hb,
    fun _ h => ⟨uniqueKeys_of_intersect ha h, populated_of_intersect h⟩, intersect_self ha⟩

def stagedSlots : NestedSet :=
  .map
    [("dev", .list ["d1", "d2"]), ("prod", .list ["p1"]), ("zone", .map [("rack", .scalar "r1")])]

def zonedSlots : NestedSet :=
  .map
    [("zone", .map [("row", .scalar "a"), ("rack", .scalar "r1")]),
      ("dev", .list ["d2", "d3", "d1"]), ("prod", .list ["p2"])]

def repeatedSlots : NestedSet :=
  .map [("zone", .scalar "r1"), ("dev", .list ["d1", "d1"])]

theorem intersect_semilattice_slots :
    stagedSlots.UniqueKeys ∧ zonedSlots.UniqueKeys ∧ stagedSlots.Populated ∧
      (stagedSlots.intersect zonedSlots).bind (·.intersect repeatedSlots) =
        (zonedSlots.intersect repeatedSlots).bind stagedSlots.intersect ∧
      Option.Rel SameMembers (stagedSlots.intersect zonedSlots)
        (zonedSlots.intersect stagedSlots) ∧
      (NestedSet.map
        [("dev", .list ["d1", "d2"]), ("zone", .map [("rack", .scalar "r1")])]).Populated ∧
      stagedSlots.intersect stagedSlots = some stagedSlots := by
  have hstaged : stagedSlots.UniqueKeys := by
    simp [stagedSlots, UniqueKeys, UniqueKeysOfEntries, Entries.keys]
  have hzoned : zonedSlots.UniqueKeys := by
    simp [zonedSlots, UniqueKeys, UniqueKeysOfEntries, Entries.keys]
  have hpopulated : stagedSlots.Populated := by simp [stagedSlots]
  obtain ⟨hassoc, hsame, hresult, hself⟩ := intersect_semilattice hstaged hzoned
  have hcommon : stagedSlots.intersect zonedSlots = some (.map
      [("dev", .list ["d1", "d2"]), ("zone", .map [("rack", .scalar "r1")])]) := by
    cbv
  exact ⟨hstaged, hzoned, hpopulated, hassoc, hsame, (hresult _ hcommon).2, hself hpopulated⟩

end NestedSet

/-! ## Domains -/

namespace Domains

theorem intersectEntries_lists (left right : Domains) :
    NestedSet.intersectEntries (left.entries.map fun entry => (entry.1, .list entry.2))
        (right.entries.map fun entry => (entry.1, .list entry.2)) =
      (intersect left right).entries.map fun entry => (entry.1, .list entry.2) := by
  rw [intersect_eq_filterMap, NestedSet.intersectEntries_eq_filterMap]
  simp only [OrderedMap.filterMap, Entries.filterMap, List.filterMap_map, List.map_filterMap]
  refine List.filterMap_congr fun entry _ => ?_
  simp only [Function.comp_apply, Entries.get?_map]
  rw [OrderedMap.get?]
  cases Entries.get? entry.1 right.entries with
  | none => rfl
  | some others =>
      simp only [Option.map_some, Option.bind_some, NestedSet.intersect_list]
      cases shared? others entry.2 <;> rfl

theorem intersect_toSet (left right : Domains) :
    left.toSet.intersect right.toSet =
      if (intersect left right).isEmpty then none else some (intersect left right).toSet := by
  rw [toSet, toSet, NestedSet.intersect_map, intersectEntries_lists]
  simp only [List.map_eq_nil_iff, OrderedMap.isEmpty, List.isEmpty_iff, toSet]

end Domains

end Variants
