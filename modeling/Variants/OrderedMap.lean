/-!
# Maps that keep the order of insertion

An ordered map lists its entries in the order in which their keys first
appeared; writing to a present key replaces its value in place.  Operations on
bare entry lists come first, because recursive types hold such lists directly.
`OrderedMap` adds that no key is listed twice.
-/

namespace Variants

/-! ## Entry lists -/

namespace Entries

variable {κ α β : Type} [DecidableEq κ]

def get? (key : κ) : List (κ × α) → Option α
  | [] => none
  | (other, value) :: rest => if other = key then some value else get? key rest

/-- Put `change` of the present value, or of `none`, at the key: in place, or else at the end. -/
def alter (key : κ) (change : Option α → α) : List (κ × α) → List (κ × α)
  | [] => [(key, change none)]
  | (other, value) :: rest =>
      if other = key then (other, change (some value)) :: rest
      else (other, value) :: alter key change rest

def insert (key : κ) (value : α) (entries : List (κ × α)) : List (κ × α) :=
  alter key (fun _ => value) entries

def keys (entries : List (κ × α)) : List κ := entries.map Prod.fst

/-- A repeated key keeps its first position and takes its last value. -/
def ofList (pairs : List (κ × α)) : List (κ × α) :=
  pairs.foldl (fun entries pair => insert pair.1 pair.2 entries) []

def filterMap (f : κ → α → Option β) (entries : List (κ × α)) : List (κ × β) :=
  entries.filterMap fun entry => (f entry.1 entry.2).map fun value => (entry.1, value)

/-! ### Lookup -/

@[simp] theorem get?_nil (key : κ) : get? key ([] : List (κ × α)) = none := rfl

theorem get?_eq_none_iff {key : κ} {entries : List (κ × α)} :
    get? key entries = none ↔ key ∉ keys entries := by
  induction entries with
  | nil => simp [keys]
  | cons entry rest ih =>
      obtain ⟨other, value⟩ := entry
      by_cases h : other = key
      · simp [get?, keys, h]
      · simpa [get?, keys, h, Ne.symm h] using ih

theorem mem_of_get? {key : κ} {value : α} {entries : List (κ × α)}
    (h : get? key entries = some value) : (key, value) ∈ entries := by
  induction entries with
  | nil => simp at h
  | cons entry rest ih =>
      obtain ⟨other, first⟩ := entry
      by_cases hk : other = key
      · simp_all [get?]
      · exact List.mem_cons_of_mem _ (ih (by simpa [get?, hk] using h))

theorem get?_of_mem {key : κ} {value : α} {entries : List (κ × α)}
    (hnodup : (keys entries).Nodup) (h : (key, value) ∈ entries) :
    get? key entries = some value := by
  induction entries with
  | nil => simp at h
  | cons entry rest ih =>
      obtain ⟨other, first⟩ := entry
      simp only [keys, List.map_cons, List.nodup_cons] at hnodup
      rcases List.mem_cons.1 h with heq | hrest
      · cases heq
        simp [get?]
      · have hne : other ≠ key := by
          rintro rfl
          exact hnodup.1 (List.mem_map.2 ⟨_, hrest, rfl⟩)
        simpa [get?, hne] using ih hnodup.2 hrest

theorem get?_alter (key other : κ) (change : Option α → α) (entries : List (κ × α)) :
    get? other (alter key change entries) =
      if key = other then some (change (get? other entries)) else get? other entries := by
  induction entries with
  | nil => simp [alter, get?]
  | cons entry rest ih =>
      obtain ⟨first, value⟩ := entry
      by_cases hk : first = key
      · subst hk
        by_cases ho : first = other <;> simp [alter, get?, ho]
      · by_cases ho : first = other
        · subst ho
          simp [alter, get?, hk, Ne.symm hk]
        · simp [alter, get?, hk, ho, ih]

/-! ### Keys -/

theorem keys_alter (key : κ) (change : Option α → α) (entries : List (κ × α)) :
    keys (alter key change entries) =
      if key ∈ keys entries then keys entries else keys entries ++ [key] := by
  induction entries with
  | nil => simp [alter, keys]
  | cons entry rest ih =>
      obtain ⟨other, value⟩ := entry
      by_cases h : other = key
      · simp [alter, keys, h]
      · simp only [keys] at ih
        by_cases hmem : key ∈ rest.map Prod.fst <;>
          simp [alter, h, keys, ih, Ne.symm h, hmem]

theorem nodup_keys_alter {key : κ} {change : Option α → α} {entries : List (κ × α)}
    (h : (keys entries).Nodup) : (keys (alter key change entries)).Nodup := by
  rw [keys_alter]
  split
  · exact h
  · next hnot =>
      exact List.nodup_append.2 ⟨h, by simp, by
        intro a ha b hb hab
        simp only [List.mem_singleton] at hb
        exact hnot (hb ▸ hab ▸ ha)⟩

theorem nodup_keys_ofList (pairs : List (κ × α)) : (keys (ofList pairs)).Nodup := by
  suffices hall : ∀ entries : List (κ × α), (keys entries).Nodup →
      (keys (pairs.foldl (fun entries pair => insert pair.1 pair.2 entries) entries)).Nodup from
    hall [] (by simp [keys])
  induction pairs with
  | nil => exact fun _ h => h
  | cons pair pairs ih => exact fun entries h => ih _ (nodup_keys_alter h)

omit [DecidableEq κ] in
theorem keys_filterMap_sublist (f : κ → α → Option β) (entries : List (κ × α)) :
    (keys (filterMap f entries)).Sublist (keys entries) := by
  induction entries with
  | nil => simp [filterMap, keys]
  | cons entry rest ih =>
      obtain ⟨key, value⟩ := entry
      simp only [filterMap, keys] at ih
      cases h : f key value with
      | none => simpa [filterMap, keys, h] using ih.trans (List.sublist_cons_self _ _)
      | some result => simpa [filterMap, keys, h] using ih

end Entries

/-! ## Ordered maps -/

structure OrderedMap (κ α : Type) where
  entries : List (κ × α)
  nodup_keys : (Entries.keys entries).Nodup

namespace OrderedMap

variable {κ α β : Type} [DecidableEq κ]

instance [DecidableEq α] : DecidableEq (OrderedMap κ α) := fun a b =>
  decidable_of_iff (a.entries = b.entries) (by cases a; cases b; simp)

def empty : OrderedMap κ α := ⟨[], by simp [Entries.keys]⟩

instance : Inhabited (OrderedMap κ α) := ⟨empty⟩

def single (key : κ) (value : α) : OrderedMap κ α := ⟨[(key, value)], by simp [Entries.keys]⟩

def ofList (pairs : List (κ × α)) : OrderedMap κ α :=
  ⟨Entries.ofList pairs, Entries.nodup_keys_ofList pairs⟩

def get? (m : OrderedMap κ α) (key : κ) : Option α := Entries.get? key m.entries

def keys (m : OrderedMap κ α) : List κ := Entries.keys m.entries

def size (m : OrderedMap κ α) : Nat := m.entries.length

def isEmpty (m : OrderedMap κ α) : Bool := m.entries.isEmpty

def alter (m : OrderedMap κ α) (key : κ) (change : Option α → α) : OrderedMap κ α :=
  ⟨Entries.alter key change m.entries, Entries.nodup_keys_alter m.nodup_keys⟩

def insert (m : OrderedMap κ α) (key : κ) (value : α) : OrderedMap κ α :=
  m.alter key fun _ => value

def filterMap (f : κ → α → Option β) (m : OrderedMap κ α) : OrderedMap κ β :=
  ⟨Entries.filterMap f m.entries,
    m.nodup_keys.sublist (Entries.keys_filterMap_sublist f m.entries)⟩

def sameEntries [DecidableEq α] (a b : OrderedMap κ α) : Bool :=
  a.size == b.size && a.entries.all fun entry => b.get? entry.1 == some entry.2

@[simp] theorem get?_empty (key : κ) : (empty : OrderedMap κ α).get? key = none := rfl

theorem get?_alter (m : OrderedMap κ α) (key other : κ) (change : Option α → α) :
    (m.alter key change).get? other =
      if key = other then some (change (m.get? other)) else m.get? other :=
  Entries.get?_alter key other change m.entries

theorem get?_insert (m : OrderedMap κ α) (key other : κ) (value : α) :
    (m.insert key value).get? other = if key = other then some value else m.get? other :=
  m.get?_alter key other _

theorem get?_eq_some_iff {m : OrderedMap κ α} {key : κ} {value : α} :
    m.get? key = some value ↔ (key, value) ∈ m.entries :=
  ⟨Entries.mem_of_get?, Entries.get?_of_mem m.nodup_keys⟩

theorem keys_alter (m : OrderedMap κ α) (key : κ) (change : Option α → α) :
    (m.alter key change).keys = if key ∈ m.keys then m.keys else m.keys ++ [key] :=
  Entries.keys_alter key change m.entries

end OrderedMap

end Variants
