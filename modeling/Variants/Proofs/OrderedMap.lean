import Mathlib.Data.List.Induction
import Mathlib.Data.List.Nodup
import Mathlib.Data.List.Perm.Subperm
import Variants.NestedSet

/-!
# Looking into ordered maps

Maps are compared through their lookups.  Each operation on entries says what
it does to a lookup, and two maps hold the same entries exactly when they look
up alike.  The last part treats the intersection of domains when one side has a
single domain, which is the only kind that expressions ever resolve to.
-/

namespace Variants

namespace Entries

variable {κ α β : Type} [DecidableEq κ]

theorem mem_keys_iff {key : κ} {entries : List (κ × α)} :
    key ∈ keys entries ↔ ∃ value, get? key entries = some value := by
  rw [← Option.ne_none_iff_exists', Ne, get?_eq_none_iff, not_not]

theorem get?_map (f : α → β) (key : κ) (entries : List (κ × α)) :
    get? key (entries.map fun entry => (entry.1, f entry.2)) = (get? key entries).map f := by
  induction entries with
  | nil => rfl
  | cons entry rest ih =>
      obtain ⟨other, value⟩ := entry
      by_cases h : other = key <;> simp [get?, h, ih]

theorem get?_map_key {ι : Type} [DecidableEq ι] {g : κ → ι} (hg : Function.Injective g)
    (key : κ) (entries : List (κ × α)) :
    get? (g key) (entries.map fun entry => (g entry.1, entry.2)) = get? key entries := by
  induction entries with
  | nil => rfl
  | cons entry rest ih =>
      obtain ⟨other, value⟩ := entry
      by_cases h : other = key <;> simp [get?, h, hg.eq_iff, ih]

theorem get?_insert (key other : κ) (value : α) (entries : List (κ × α)) :
    get? other (insert key value entries) =
      if key = other then some value else get? other entries :=
  get?_alter key other _ entries

theorem insert_of_not_mem {key : κ} {entries : List (κ × α)} (h : key ∉ keys entries)
    (value : α) : insert key value entries = entries ++ [(key, value)] := by
  induction entries with
  | nil => rfl
  | cons entry rest ih =>
      obtain ⟨hne, hrest⟩ := List.ne_and_not_mem_of_not_mem_cons h
      have hinsert := ih hrest
      simp only [insert] at hinsert
      simp [insert, alter, Ne.symm hne, hinsert]

theorem ofList_of_nodup {entries : List (κ × α)} (h : (keys entries).Nodup) :
    ofList entries = entries := by
  induction entries using List.reverseRecOn with
  | nil => rfl
  | append_singleton entries entry ih =>
      simp only [keys, List.map_append, List.map_cons, List.map_nil, List.nodup_append] at h
      obtain ⟨hentries, -, hfresh⟩ := h
      have hlast : entry.1 ∉ keys entries := fun hmem =>
        hfresh entry.1 hmem entry.1 (List.mem_singleton_self _) rfl
      have hofList := ih hentries
      simp only [ofList] at hofList
      rw [ofList, List.foldl_append, hofList]
      exact insert_of_not_mem hlast entry.2

theorem get?_ofList_concat (pairs : List (κ × α)) (pair : κ × α) (key : κ) :
    get? key (ofList (pairs ++ [pair])) =
      if pair.1 = key then some pair.2 else get? key (ofList pairs) := by
  simp only [ofList, List.foldl_append, List.foldl_cons, List.foldl_nil]
  exact get?_insert pair.1 key pair.2 _

theorem get?_filterMap (f : κ → α → Option β) {entries : List (κ × α)}
    (hnodup : (keys entries).Nodup) (key : κ) :
    get? key (filterMap f entries) = (get? key entries).bind (f key) := by
  induction entries with
  | nil => rfl
  | cons entry rest ih =>
      obtain ⟨other, value⟩ := entry
      obtain ⟨hother, hrest⟩ := List.nodup_cons.mp hnodup
      have hrest := ih hrest
      by_cases h : other = key
      · subst h
        have hnone : get? other (filterMap f rest) = none := by
          rw [hrest, get?_eq_none_iff.mpr hother]
          rfl
        cases hvalue : f other value with
        | none =>
            simp only [filterMap] at hnone
            simp [filterMap, get?, hvalue, hnone]
        | some result => simp [filterMap, get?, hvalue]
      · cases hvalue : f other value with
        | none =>
            simp only [filterMap] at hrest
            simp [filterMap, get?, hvalue, h, hrest]
        | some result =>
            simp only [filterMap] at hrest
            simp [filterMap, get?, hvalue, h, hrest]

theorem filterMap_eq_of_forall_ne {f : κ → α → Option β} {key : κ} {entries : List (κ × α)}
    (hnodup : (keys entries).Nodup) (hf : ∀ other value, other ≠ key → f other value = none) :
    filterMap f entries =
      (((get? key entries).bind (f key)).map fun value => (key, value)).toList := by
  induction entries with
  | nil => rfl
  | cons entry rest ih =>
      obtain ⟨other, value⟩ := entry
      obtain ⟨hother, hrest⟩ := List.nodup_cons.mp hnodup
      have hrest := ih hrest
      by_cases h : other = key
      · subst h
        have hnil : filterMap f rest = [] := by
          rw [hrest, get?_eq_none_iff.mpr hother]
          rfl
        simp only [filterMap] at hnil
        cases hvalue : f other value <;> simp [filterMap, get?, hvalue, hnil]
      · simp only [filterMap] at hrest
        simp [filterMap, get?, h, hf other value h, hrest]

omit [DecidableEq κ] in
theorem filterMap_congr {f g : κ → α → Option β} {entries : List (κ × α)}
    (h : ∀ entry ∈ entries, f entry.1 entry.2 = g entry.1 entry.2) :
    filterMap f entries = filterMap g entries :=
  List.filterMap_congr fun entry hentry => by rw [h entry hentry]

omit [DecidableEq κ] in
theorem filterMap_filterMap {γ : Type} (f : κ → α → Option β) (g : κ → β → Option γ)
    (entries : List (κ × α)) :
    filterMap g (filterMap f entries) =
      filterMap (fun key value => (f key value).bind (g key)) entries := by
  simp only [filterMap, List.filterMap_filterMap]
  refine List.filterMap_congr fun entry _ => ?_
  cases f entry.1 entry.2 <;> rfl

end Entries

namespace OrderedMap

variable {κ α β : Type} [DecidableEq κ]

omit [DecidableEq κ] in
theorem ext_entries {a b : OrderedMap κ α} (h : a.entries = b.entries) : a = b := by
  cases a
  cases b
  simpa using h

theorem mem_keys_iff {m : OrderedMap κ α} {key : κ} :
    key ∈ m.keys ↔ ∃ value, m.get? key = some value :=
  Entries.mem_keys_iff

theorem get?_eq_none_iff {m : OrderedMap κ α} {key : κ} : m.get? key = none ↔ key ∉ m.keys :=
  Entries.get?_eq_none_iff

@[simp] theorem get?_single (key other : κ) (value : α) :
    (single key value).get? other = if key = other then some value else none := rfl

theorem get?_filterMap (f : κ → α → Option β) (m : OrderedMap κ α) (key : κ) :
    (m.filterMap f).get? key = (m.get? key).bind (f key) :=
  Entries.get?_filterMap f m.nodup_keys key

theorem get?_ofList_filterMap (f : κ → Option α) (names : List κ) (key : κ) :
    (ofList (names.filterMap fun name => (f name).map fun value => (name, value))).get? key =
      if key ∈ names then f key else none := by
  induction names using List.reverseRecOn with
  | nil => rfl
  | append_singleton names name ih =>
      simp only [get?, ofList] at ih
      cases hvalue : f name with
      | none =>
          by_cases h : key = name
          · subst h
            simp [get?, ofList, ih, hvalue]
          · simp [get?, ofList, ih, hvalue, h]
      | some value =>
          simp only [get?, ofList, List.filterMap_append, List.filterMap_cons, hvalue,
            Option.map_some, List.filterMap_nil, Entries.get?_ofList_concat, ih]
          by_cases h : name = key
          · subst h
            simp [hvalue]
          · simp [h, Ne.symm h]

/-! ## Sameness -/

theorem sameEntries_iff [DecidableEq α] {a b : OrderedMap κ α} :
    a.sameEntries b = true ↔ ∀ key, a.get? key = b.get? key := by
  have hmem : (∀ entry ∈ a.entries, (b.get? entry.1 == some entry.2) = true) ↔
      ∀ entry ∈ a.entries, entry ∈ b.entries := by
    simp only [beq_iff_eq, get?_eq_some_iff]
  have hle : ∀ {c d : OrderedMap κ α}, (∀ entry ∈ c.entries, entry ∈ d.entries) →
      c.entries.Subperm d.entries := fun {c d} h =>
    (List.Nodup.of_map _ c.nodup_keys).subperm h
  simp only [sameEntries, size, Bool.and_eq_true, beq_iff_eq, List.all_eq_true]
  constructor
  · rintro ⟨hsize, hall⟩ key
    have hsub : ∀ entry ∈ a.entries, entry ∈ b.entries :=
      hmem.mp fun entry he => by simpa using hall entry he
    have hperm : a.entries.Perm b.entries :=
      (hle hsub).perm_of_length_le (Nat.le_of_eq hsize.symm)
    refine Option.ext fun value => ?_
    rw [get?_eq_some_iff, get?_eq_some_iff, hperm.mem_iff]
  · intro h
    have hiff : ∀ entry, entry ∈ a.entries ↔ entry ∈ b.entries := by
      rintro ⟨key, value⟩
      rw [← get?_eq_some_iff, ← get?_eq_some_iff, h]
    refine ⟨?_, fun entry he => by simpa using hmem.mpr (fun e => (hiff e).mp) entry he⟩
    exact Nat.le_antisymm (hle fun entry => (hiff entry).mp).length_le
      (hle fun entry => (hiff entry).mpr).length_le

end OrderedMap

/-! ## Intersection of domains -/

namespace Domains

def shared? (others values : List String) : Option (List String) :=
  if values.filter others.contains = [] then none else some (values.filter others.contains)

theorem shared?_eq_some_iff {others values common : List String} :
    shared? others values = some common ↔
      values.filter others.contains = common ∧ common ≠ [] := by
  unfold shared?
  split
  · next h => simp [h, eq_comm]
  · next h =>
      simp only [Option.some.injEq]
      constructor
      · rintro rfl
        exact ⟨rfl, h⟩
      · exact And.left

theorem intersect_eq_filterMap (left right : Domains) :
    intersect left right =
      left.filterMap fun domain values =>
        (right.get? domain).bind fun others => shared? others values := by
  unfold intersect
  congr 1
  funext domain values
  cases right.get? domain with
  | none => rfl
  | some others =>
      simp only [Option.bind_some, shared?]
      cases values.filter others.contains <;> simp

theorem get?_intersect (left right : Domains) (domain : String) :
    (intersect left right).get? domain =
      (left.get? domain).bind fun values =>
        (right.get? domain).bind fun others => shared? others values := by
  rw [intersect_eq_filterMap, OrderedMap.get?_filterMap]

theorem intersect_single (left : Domains) (domain : String) (values : List String) :
    intersect left (.single domain values) =
      match (left.get? domain).bind (shared? values) with
      | none => OrderedMap.empty
      | some common => .single domain common := by
  have hother : ∀ name own, name ≠ domain →
      (((OrderedMap.single domain values).get? name).bind fun others =>
        shared? others own) = none := by
    intro name own hname
    simp [Ne.symm hname]
  apply OrderedMap.ext_entries
  rw [intersect_eq_filterMap]
  refine (Entries.filterMap_eq_of_forall_ne left.nodup_keys hother).trans ?_
  simp only [OrderedMap.get?_single, if_true, Option.bind_some]
  rw [OrderedMap.get?]
  cases (Entries.get? domain left.entries).bind (shared? values) <;> rfl

end Domains

end Variants
